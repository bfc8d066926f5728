import PageLoom.Proofs.Css.Items

/-!
# Grammar — the parts of a stylesheet as they are written

    The parts of a stylesheet are given by derivations of their own, without
    reference to any scan: string literals (`Literal`), blocks with balanced
    braces (`Balanced`), selectors with balanced parentheses and brackets
    (`Nested`), selector lists with white space anywhere (`ListText`), and
    the names of grouping at-rules (`NamesGroup`).

    What the scans make of them follows by induction on the derivations.  A
    balanced block leaves a scan where it was (`Balanced.neutral`), the
    members of a written list are its selectors (`ListText.scan`), and a
    heading is recognised by its name (`isGrouping_iff`).
-/

namespace PageLoom.Css

open Text

/-! ## Blocks -/

/-- The inside of a string literal. -/
inductive Literal (quote : Char) : List Char → Prop
  | nil : Literal quote []
  | char {c : Char} {t : List Char} (hc : c ≠ quote) (hb : c ≠ '\\') (ht : Literal quote t) :
      Literal quote (c :: t)
  | escape (c : Char) {t : List Char} (ht : Literal quote t) : Literal quote ('\\' :: c :: t)

/-- **Balanced braces** outside complete string literals. -/
inductive Balanced : List Char → Prop
  | nil : Balanced []
  | char {c : Char} {t : List Char} (hopen : c ≠ '{') (hclose : c ≠ '}')
      (hquote : isQuote c = false) (ht : Balanced t) : Balanced (c :: t)
  | string {quote : Char} {inner t : List Char} (hquote : isQuote quote = true)
      (hinner : Literal quote inner) (ht : Balanced t) :
      Balanced (quote :: inner ++ quote :: t)
  | block {inner t : List Char} (hinner : Balanced inner) (ht : Balanced t) :
      Balanced ('{' :: inner ++ '}' :: t)

/-- A literal keeps a scan inside it, and no counter sees it. -/
theorem Literal.scan {quote : Char} {t : List Char} (h : Literal quote t) (k : Counter) (n : Nat) :
    (Quoting.inside quote).after t = .inside quote ∧
      levelAfter k (.inside quote) n t = some n := by
  have hin : ∀ q : Quoting, q ≠ .code → ∀ c, levelNext k q n c = some n :=
    fun q hq c => levelNext_of_ne hq k n c
  induction h with
  | nil => exact ⟨rfl, rfl⟩
  | @char c t hc hb _ ih =>
      have hnext : (Quoting.inside quote).next c = .inside quote := by
        show (if c = '\\' then Quoting.escaped quote
          else if c = quote then .code else .inside quote) = .inside quote
        rw [if_neg hb, if_neg hc]
      constructor
      · rw [Quoting.after_cons, hnext]
        exact ih.1
      · rw [levelAfter_cons_of_some (hin _ (by simp) c), hnext]
        exact ih.2
  | escape c _ ih =>
      constructor
      · exact ih.1
      · rw [levelAfter_cons_of_some (hin _ (by simp) '\\'),
          levelAfter_cons_of_some (hin _ (by simp [Quoting.next]) c)]
        exact ih.2

/-- A quote opens a literal of its own kind. -/
private theorem next_quote {quote : Char} (h : isQuote quote = true) :
    Quoting.code.next quote = .inside quote :=
  if_pos h

/-- The same quote closes it. -/
private theorem next_inside_quote {quote : Char} (h : isQuote quote = true) :
    (Quoting.inside quote).next quote = .code := by
  have hb : quote ≠ '\\' := by
    rintro rfl
    cases h
  show (if quote = '\\' then Quoting.escaped quote
    else if quote = quote then .code else .inside quote) = .code
  rw [if_neg hb, if_pos rfl]

/-- A text that leaves a scan where it was, inside any block. -/
structure Neutral (t : List Char) : Prop where
  code : Quoting.code.after t = .code
  level : ∀ n, levelAfter braces .code (n + 1) t = some (n + 1)

theorem Neutral.append {a b : List Char} (ha : Neutral a) (hb : Neutral b) : Neutral (a ++ b) := by
  constructor
  · rw [Quoting.after_append, ha.code, hb.code]
  · intro n
    rw [levelAfter_append_of_some (ha.level n), ha.code, hb.level]

/-- A block of neutral text with neutral text after it. -/
theorem Neutral.block {inner t : List Char} (hinner : Neutral inner) (ht : Neutral t) :
    Neutral ('{' :: inner ++ '}' :: t) := by
  constructor
  · rw [Quoting.after_append, Quoting.after_cons]
    show (Quoting.code.after inner).after ('}' :: t) = .code
    rw [hinner.code]
    exact ht.code
  · intro n
    have hopen : levelNext braces .code (n + 1) '{' = some (n + 2) := braces_open (n + 1)
    have hclose : levelNext braces .code (n + 2) '}' = some (n + 1) :=
      braces_close (n := n + 2) (by omega)
    rw [List.cons_append, levelAfter_cons_of_some hopen]
    show levelAfter braces .code (n + 2) (inner ++ '}' :: t) = some (n + 1)
    rw [levelAfter_append_of_some (hinner.level (n + 1)), hinner.code,
      levelAfter_cons_of_some hclose]
    exact ht.level n

/-- A character outside strings that is no brace. -/
theorem Neutral.char {c : Char} {t : List Char} (hopen : c ≠ '{') (hclose : c ≠ '}')
    (hquote : isQuote c = false) (ht : Neutral t) : Neutral (c :: t) := by
  have hnext := Quoting.next_code_of_not_quote hquote
  constructor
  · rw [Quoting.after_cons, hnext]
    exact ht.code
  · intro n
    have hlevel : levelNext braces .code (n + 1) c = some (n + 1) :=
      braces_other hopen hclose fun hc => absurd hc.2 (Nat.succ_ne_zero n)
    rw [levelAfter_cons_of_some hlevel, hnext]
    exact ht.level n

/-- **A balanced block leaves a scan where it was.** -/
theorem Balanced.neutral {t : List Char} (h : Balanced t) : Neutral t := by
  induction h with
  | nil => exact ⟨rfl, fun n => rfl⟩
  | char hopen hclose hquote _ ih => exact ih.char hopen hclose hquote
  | @string quote inner t hquote hinner _ ih =>
      constructor
      · rw [List.cons_append, Quoting.after_cons, next_quote hquote, Quoting.after_append,
          (hinner.scan braces 0).1, Quoting.after_cons, next_inside_quote hquote]
        exact ih.code
      · intro n
        have hopen : levelNext braces .code (n + 1) quote = some (n + 1) := by
          refine braces_other ?_ ?_ fun hc => absurd hc.2 (Nat.succ_ne_zero n) <;>
            rintro rfl <;> cases hquote
        have hclose : levelNext braces (.inside quote) (n + 1) quote = some (n + 1) :=
          levelNext_of_ne (by simp) braces (n + 1) quote
        rw [List.cons_append, levelAfter_cons_of_some hopen, next_quote hquote,
          levelAfter_append_of_some (hinner.scan braces (n + 1)).2, (hinner.scan braces 0).1,
          levelAfter_cons_of_some hclose, next_inside_quote hquote]
        exact ih.level n
  | block _ _ ihinner iht => exact ihinner.block iht

/-! ## Selectors -/

/-- Texts without quotes, braces and semicolons. -/
def Plain (t : List Char) : Prop :=
  ∀ c ∈ t, isQuote c = false ∧ c ≠ '{' ∧ c ≠ '}' ∧ c ≠ ';'

instance (t : List Char) : Decidable (Plain t) :=
  List.decidableBAll _ t

/-- **Balanced parentheses and brackets**; `commas` tells whether a comma may
    stand outside them. -/
inductive Nested : Bool → List Char → Prop
  | nil (commas : Bool) : Nested commas []
  | char {commas : Bool} {c : Char} {t : List Char} (hc : c ∉ ['(', ')', '[', ']'])
      (hcomma : c = ',' → commas = true) (ht : Nested commas t) : Nested commas (c :: t)
  | round {commas : Bool} {inner t : List Char} (hinner : Nested true inner)
      (ht : Nested commas t) : Nested commas ('(' :: inner ++ ')' :: t)
  | square {commas : Bool} {inner t : List Char} (hinner : Nested true inner)
      (ht : Nested commas t) : Nested commas ('[' :: inner ++ ']' :: t)

/-- **A selector**: it is not blank, does not start with an at-sign, and has no
    comma outside its parentheses and brackets. -/
structure IsSelector (s : List Char) : Prop where
  plain : Plain s
  solid : trim s ≠ []
  style : (trim s).head? ≠ some '@'
  nested : Nested false s

/-- **Selectors as written**: commas between them, white space around them. -/
inductive ListText : List (List Char) → List Char → Prop
  | one {a s b : List Char} (ha : AllBlank a) (hs : IsSelector s) (hb : AllBlank b) :
      ListText [s] (a ++ s ++ b)
  | more {a s b t : List Char} {selectors : List (List Char)} (ha : AllBlank a)
      (hs : IsSelector s) (hb : AllBlank b) (ht : ListText selectors t) :
      ListText (s :: selectors) (a ++ s ++ b ++ ',' :: t)

theorem plain_append {a b : List Char} : Plain (a ++ b) ↔ Plain a ∧ Plain b :=
  List.forall_mem_append

theorem plain_of_allBlank {a : List Char} (ha : AllBlank a) : Plain a := by
  intro c hc
  have hblank := ha c hc
  refine ⟨Quoting.isQuote_of_isBlank hblank, ?_, ?_, ?_⟩ <;> rintro rfl <;>
    exact absurd hblank (by decide)

theorem Plain.code_after {t : List Char} (h : Plain t) : Quoting.code.after t = .code :=
  Quoting.code_after_of_not_quote fun c hc => (h c hc).1

theorem Plain.braces {t : List Char} (h : Plain t) (q : Quoting) (n : Nat) :
    levelAfter braces q n t = some n :=
  levelAfter_of_skips (fun c hc => skips_braces_iff.mpr
    ⟨(h c hc).2.1, (h c hc).2.2.1, (h c hc).2.2.2⟩) q n

theorem Plain.no_brace {t : List Char} (h : Plain t) : '{' ∉ t :=
  fun hmem => (h '{' hmem).2.1 rfl

/-- A text without parentheses, brackets and commas is nested. -/
theorem nested_of_simple (commas : Bool) {t : List Char}
    (h : t.all (fun c => !(['(', ')', '[', ']', ','].contains c)) = true) : Nested commas t := by
  induction t with
  | nil => exact .nil commas
  | cons c t ih =>
      rw [List.all_cons, Bool.and_eq_true, Bool.not_eq_true', List.contains_eq_mem,
        decide_eq_false_iff_not] at h
      simp only [List.mem_cons, List.not_mem_nil, or_false, not_or] at h
      obtain ⟨⟨h1, h2, h3, h4, h5⟩, ht⟩ := h
      exact .char (by simp [h1, h2, h3, h4]) (fun hc => absurd hc h5) (ih ht)

/-- A group of a selector leaves a scan where it was. -/
private theorem bracket_group {opener closer : Char} {inner t : List Char} {n : Nat}
    (hopener : opener = '(' ∨ opener = '[') (hcloser : closer = ')' ∨ closer = ']')
    (hplain : Plain (opener :: inner ++ closer :: t))
    (hinner : levelAfter brackets .code (n + 1) inner = some (n + 1))
    (ht : levelAfter brackets .code n t = some n) :
    levelAfter brackets .code n (opener :: inner ++ closer :: t) = some n := by
  have hquote : isQuote opener = false ∧ isQuote closer = false := by
    rcases hopener with rfl | rfl <;> rcases hcloser with rfl | rfl <;> decide
  have hcode : Quoting.code.after inner = .code := by
    refine Quoting.code_after_of_not_quote fun c hc => (hplain c ?_).1
    exact List.mem_append_left _ (List.mem_cons_of_mem _ hc)
  have hopen : levelNext brackets .code n opener = some (n + 1) := brackets_open hopener
  have hclose : levelNext brackets .code (n + 1) closer = some n :=
    brackets_close (n := n + 1) hcloser
  rw [List.cons_append, levelAfter_cons_of_some hopen, Quoting.next_code_of_not_quote hquote.1,
    levelAfter_append_of_some hinner, hcode, levelAfter_cons_of_some hclose,
    Quoting.next_code_of_not_quote hquote.2]
  exact ht

/-- **A nested text has no cut**: outside parentheses and brackets it has no
    comma, inside them commas are allowed. -/
theorem Nested.levelAfter {commas : Bool} {t : List Char} (h : Nested commas t) (hplain : Plain t)
    {n : Nat} (hn : commas = true → 1 ≤ n) : levelAfter brackets .code n t = some n := by
  induction h generalizing n with
  | nil _ => rfl
  | @char commas c t hc hcomma _ ih =>
      obtain ⟨hhead, htail⟩ := List.forall_mem_cons.mp hplain
      simp only [List.mem_cons, List.not_mem_nil, or_false, not_or] at hc
      obtain ⟨h1, h2, h3, h4⟩ := hc
      have hlevel : levelNext brackets .code n c = some n := by
        refine brackets_other (fun h => h.elim h1 h3) (fun h => h.elim h2 h4) fun h => ?_
        have := hn (hcomma h.1)
        omega
      rw [levelAfter_cons_of_some hlevel, Quoting.next_code_of_not_quote hhead.1]
      exact ih htail hn
  | @round commas inner t _ _ ihinner iht =>
      obtain ⟨hopen, hclose⟩ := plain_append.mp hplain
      refine bracket_group (Or.inl rfl) (Or.inl rfl) hplain
        (ihinner ?_ fun _ => Nat.succ_le_succ (Nat.zero_le n)) (iht ?_ hn)
      · exact fun c hc => hopen c (List.mem_cons_of_mem _ hc)
      · exact fun c hc => hclose c (List.mem_cons_of_mem _ hc)
  | @square commas inner t _ _ ihinner iht =>
      obtain ⟨hopen, hclose⟩ := plain_append.mp hplain
      refine bracket_group (Or.inr rfl) (Or.inr rfl) hplain
        (ihinner ?_ fun _ => Nat.succ_le_succ (Nat.zero_le n)) (iht ?_ hn)
      · exact fun c hc => hopen c (List.mem_cons_of_mem _ hc)
      · exact fun c hc => hclose c (List.mem_cons_of_mem _ hc)

/-- A selector with white space around it is one member. -/
theorem IsSelector.scan {a s b : List Char} (hs : IsSelector s) (ha : AllBlank a)
    (hb : AllBlank b) :
    Plain (a ++ s ++ b) ∧ levelAfter brackets .code 0 (a ++ s ++ b) = some 0 ∧
      cleaned (a ++ s ++ b) = [trim s] := by
  have hplain : Plain (a ++ s) := plain_append.mpr ⟨plain_of_allBlank ha, hs.plain⟩
  refine ⟨plain_append.mpr ⟨hplain, plain_of_allBlank hb⟩, ?_, ?_⟩
  · have hlead := levelAfter_allBlank skipsBlanks_brackets ha .code 0
    have hmember := hs.nested.levelAfter hs.plain (n := 0) fun h => Bool.noConfusion h
    rw [List.append_assoc, levelAfter_append_of_some hlead, Quoting.code_after_allBlank ha,
      levelAfter_append_of_some hmember, levelAfter_allBlank skipsBlanks_brackets hb]
  · rw [cleaned, trim_append ha hb, if_neg hs.solid]

/-- **A written selector list** is plain, and its members are the selectors. -/
theorem ListText.scan {selectors : List (List Char)} {t : List Char} (h : ListText selectors t) :
    Plain t ∧ cleanMembers t = selectors.map trim := by
  induction h with
  | one ha hs hb =>
      obtain ⟨hplain, hlevel, hclean⟩ := hs.scan ha hb
      exact ⟨hplain, (cleanMembers_of_uncut hlevel).trans hclean⟩
  | @more a s b t selectors ha hs hb _ ih =>
      obtain ⟨hplain, hlevel, hclean⟩ := hs.scan ha hb
      constructor
      · refine plain_append.mpr ⟨hplain, List.forall_mem_cons.mpr ⟨by decide, ih.1⟩⟩
      · rw [cleanMembers_of_cut hplain.code_after hlevel, hclean, ih.2]
        rfl

/-! ## Headings -/

/-- What may stand in front of an at-rule's name: nothing, a dash, or the name
    of a vendor between dashes. -/
inductive VendorMark : List Char → Prop
  | none : VendorMark []
  | dash : VendorMark ['-']
  | vendor {v : List Char} (hv : '-' ∉ v) : VendorMark ('-' :: v ++ ['-'])

/-- **The heading of a grouping at-rule**: one of the names that hold style
    rules, in any letter case, with or without a vendor mark. -/
def NamesGroup (heading : List Char) : Prop :=
  ∃ mark name rest, heading = '@' :: (mark ++ name ++ rest) ∧ VendorMark mark ∧
    String.ofList (lowerAscii name) ∈ groupingNames ∧
    (∀ c ∈ mark ++ name, isAtNameChar c = true) ∧
    ∀ c, rest.head? = some c → isAtNameChar c = false

theorem toLower_eq_dash {c : Char} (h : c.toLower = '-') : c = '-' := by
  delta Char.toLower at h
  split at h
  · rename_i hupper
    have hlow : 65 ≤ c.val.toNat := hupper.1
    have hhigh : c.val.toNat ≤ 90 := hupper.2
    have hcode : (c.val.toNat + 32) % 4294967296 = 45 :=
      congrArg (fun d : Char => d.val.toNat) h
    omega
  · exact h

/-- A name in lower case without its vendor mark. -/
private def withoutMark (name : List Char) : List Char :=
  match name with
  | '-' :: rest =>
      match cutAtChar '-' rest with
      | some (_, name) => name
      | none => rest
  | _ => name

private theorem atRuleName_eq {w rest : List Char} (hw : ∀ c ∈ w, isAtNameChar c = true)
    (hrest : ∀ c, rest.head? = some c → isAtNameChar c = false) :
    atRuleName ('@' :: (w ++ rest)) = withoutMark (lowerAscii w) := by
  have hstop : rest.takeWhile isAtNameChar = [] := by
    cases rest with
    | nil => rfl
    | cons c rest =>
        rw [List.takeWhile_cons, hrest c rfl]
        rfl
  have hname : (w ++ rest).takeWhile isAtNameChar = w := by
    rw [List.takeWhile_append_of_pos hw, hstop, List.append_nil]
  show withoutMark (lowerAscii ((w ++ rest).takeWhile isAtNameChar)) = _
  rw [hname]

/-- Every name is a mark and what is left without it. -/
private theorem exists_mark (w : List Char) :
    ∃ mark name, w = mark ++ name ∧ VendorMark mark ∧
      withoutMark (lowerAscii w) = lowerAscii name := by
  unfold withoutMark
  split
  · rename_i rest hlower
    obtain ⟨d, w', rfl, hd, rfl⟩ := List.map_eq_cons_iff.mp hlower
    obtain rfl : d = '-' := toLower_eq_dash hd
    cases hcut : cutAtChar '-' (w'.map Char.toLower) with
    | none => exact ⟨['-'], w', rfl, .dash, rfl⟩
    | some cut =>
        obtain ⟨before, after⟩ := cut
        obtain ⟨hsplit, hbefore⟩ := cutAtChar_eq_some_iff.mp hcut
        obtain ⟨v, x, rfl, hv, hx⟩ := List.map_eq_append_iff.mp hsplit
        obtain ⟨d, name, rfl, hd, rfl⟩ := List.map_eq_cons_iff.mp hx
        obtain rfl : d = '-' := toLower_eq_dash hd
        refine ⟨'-' :: v ++ ['-'], name, by simp, .vendor fun hmem => hbefore ?_, rfl⟩
        rw [← hv]
        exact List.mem_map.mpr ⟨'-', hmem, rfl⟩
  · exact ⟨[], w, rfl, .none, rfl⟩

/-- A mark is taken off a name without dashes. -/
private theorem withoutMark_mark {mark name : List Char} (hmark : VendorMark mark)
    (hname : '-' ∉ lowerAscii name) :
    withoutMark (lowerAscii (mark ++ name)) = lowerAscii name := by
  cases hmark with
  | none =>
      rw [List.nil_append]
      unfold withoutMark
      split
      · rename_i rest hlower
        exact absurd (hlower ▸ List.mem_cons_self) hname
      · rfl
  | dash =>
      show (match cutAtChar '-' (lowerAscii name) with
        | some (_, name) => name
        | none => lowerAscii name) = lowerAscii name
      rw [cutAtChar_of_not_mem hname]
  | @vendor v hv =>
      have hlower : lowerAscii ('-' :: v ++ ['-'] ++ name) =
          '-' :: (lowerAscii v ++ '-' :: lowerAscii name) := by
        simp [lowerAscii]
      have hbefore : '-' ∉ lowerAscii v := by
        intro hmem
        obtain ⟨d, hd, hdash⟩ := List.mem_map.mp hmem
        obtain rfl : d = '-' := toLower_eq_dash hdash
        exact hv hd
      have hcut : cutAtChar '-' (lowerAscii v ++ '-' :: lowerAscii name) =
          some (lowerAscii v, lowerAscii name) := cutAtChar_eq_some_iff.mpr ⟨rfl, hbefore⟩
      rw [hlower]
      show (match cutAtChar '-' (lowerAscii v ++ '-' :: lowerAscii name) with
        | some (_, name) => name
        | none => lowerAscii v ++ '-' :: lowerAscii name) = lowerAscii name
      rw [hcut]

/-- The names of grouping at-rules hold no dash. -/
private theorem no_dash {name : List Char} (h : String.ofList name ∈ groupingNames) :
    '-' ∉ name := by
  have hall : ∀ s ∈ groupingNames, '-' ∉ s.toList := by decide
  have hname := hall _ h
  rwa [String.toList_ofList] at hname

/-- **Grouping at-rules are recognised by their names.** -/
theorem isGrouping_iff {t : List Char} : isGrouping ('@' :: t) = true ↔ NamesGroup ('@' :: t) := by
  rw [isGrouping, List.contains_iff_mem]
  constructor
  · intro hmem
    have hw : ∀ c ∈ t.takeWhile isAtNameChar, isAtNameChar c = true :=
      List.all_eq_true.mp List.all_takeWhile
    have hrest : ∀ c, (t.dropWhile isAtNameChar).head? = some c → isAtNameChar c = false := by
      intro c hc
      have hnot := List.head?_dropWhile_not isAtNameChar t
      rw [hc] at hnot
      exact hnot
    have hsplit : t.takeWhile isAtNameChar ++ t.dropWhile isAtNameChar = t :=
      List.takeWhile_append_dropWhile
    obtain ⟨mark, name, hmarked, hmark, hname⟩ := exists_mark (t.takeWhile isAtNameChar)
    rw [← hsplit, atRuleName_eq hw hrest, hname] at hmem
    refine ⟨mark, name, t.dropWhile isAtNameChar, ?_, hmark, hmem, ?_, hrest⟩
    · rw [← hmarked, hsplit]
    · rw [← hmarked]
      exact hw
  · rintro ⟨mark, name, rest, heq, hmark, hmem, hw, hrest⟩
    rw [heq, atRuleName_eq hw hrest, withoutMark_mark hmark (no_dash hmem)]
    exact hmem

end PageLoom.Css
