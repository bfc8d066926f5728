import PageLoom.Content.Token
import PageLoom.Proofs.Text.Cut

/-!
# Written tokens — what the scanner takes for a token

    A token is written between double braces: its field, and a bar before
    each of its filters (`Token.text`).  What can be written this way is
    told by the characters alone: names are made of their own characters,
    no filter holds a bar, and the closing braces are the first two that
    stand together (`Token.WellFormed`).

    The scanner takes exactly the written tokens for tokens
    (`scanToken?_eq_some_iff`).  Each of the cuts that it makes has a law of
    its own: at the closing braces, at the bars, at the first colon of a
    filter.
-/

namespace PageLoom.Content

open Text

/-- A filter as it is written: its name, and its argument after a colon. -/
def FilterCall.text (call : FilterCall) : List Char :=
  call.name.toList ++
    match call.arg with
    | some arg => ':' :: arg.toList
    | none => []

/-- Whether a filter has a name. -/
def FilterCall.Named (call : FilterCall) : Prop :=
  call.name.toList ≠ [] ∧ ∀ c ∈ call.name.toList, isFilterChar c = true

/-- What stands between the braces of a token. -/
def Token.inner (t : Token) : List Char :=
  t.field.toList ++ (t.filters.map FilterCall.text).flatMap ('|' :: ·)

/-- **A token as it is written.** -/
def Token.text (t : Token) : List Char :=
  '{' :: '{' :: t.inner ++ ['}', '}']

/-- **Well-formed tokens**: those that can be written. -/
structure Token.WellFormed (t : Token) : Prop where
  field_ne_nil : t.field.toList ≠ []
  field_chars : ∀ c ∈ t.field.toList, isFieldChar c = true
  filters_named : ∀ call ∈ t.filters, call.Named
  filters_bar : ∀ call ∈ t.filters, '|' ∉ call.text
  /-- no two closing braces stand together before the end -/
  closes : ¬['}', '}'] <:+: t.inner ++ ['}']

/-! ## The cuts -/

/-- **The closing braces** are the first two that stand together. -/
theorem cutAt_braces_iff {cs inner rest : List Char} :
    cutAt ['}', '}'] cs = some (inner, rest) ↔
      cs = inner ++ '}' :: '}' :: rest ∧ ¬['}', '}'] <:+: inner ++ ['}'] := by
  rw [cutAt_eq_some_iff]
  refine and_congr_right ?_
  rintro rfl
  constructor
  · rintro hfirst ⟨x, y, hxy⟩
    have hearlier : inner ++ '}' :: '}' :: rest = x ++ (['}', '}'] ++ (y ++ '}' :: rest)) := by
      calc inner ++ '}' :: '}' :: rest
          = (inner ++ ['}']) ++ '}' :: rest := (List.append_assoc inner ['}'] _).symm
        _ = x ++ (['}', '}'] ++ (y ++ '}' :: rest)) := by
            rw [← hxy, List.append_assoc, List.append_assoc]
    have hle := hfirst x _ hearlier
    have hlength := congrArg List.length hxy
    simp only [List.length_append, List.length_cons, List.length_nil] at hlength
    omega
  · intro hcloses x y hxy
    refine Nat.le_of_not_lt fun hlt => hcloses ?_
    -- an earlier pair ends before the second closing brace
    have hpair : x ++ ['}', '}'] <+: inner ++ '}' :: '}' :: rest :=
      ⟨y, (List.append_assoc x _ y).trans hxy.symm⟩
    have hbefore : inner ++ ['}'] <+: inner ++ '}' :: '}' :: rest :=
      ⟨'}' :: rest, List.append_assoc inner ['}'] ('}' :: rest)⟩
    have hle : (x ++ ['}', '}']).length ≤ (inner ++ ['}']).length := by
      simp only [List.length_append, List.length_cons, List.length_nil]
      omega
    have hstart := List.prefix_of_prefix_length_le hpair hbefore hle
    exact (List.suffix_append x _).isInfix.trans hstart.isInfix

/-! ## Tokens -/

/-- A name is not empty and made of its own characters. -/
private theorem accepted_iff {isChar : Char → Bool} {name : List Char} :
    ¬(name.isEmpty || !name.all isChar) = true ↔
      name ≠ [] ∧ ∀ c ∈ name, isChar c = true := by
  rw [Bool.not_eq_true, Bool.or_eq_false_iff, Bool.not_eq_false', List.all_eq_true,
    List.isEmpty_eq_false_iff]

/-- The first colon of a written filter is the one after its name. -/
theorem cutAtChar_text {call : FilterCall} (h : call.Named) :
    cutAtChar ':' call.text = call.arg.map fun arg => (call.name.toList, arg.toList) := by
  have hcolon : ':' ∉ call.name.toList := fun hin =>
    Bool.false_ne_true (h.2 ':' hin)
  rw [FilterCall.text]
  cases call.arg with
  | none =>
      rw [List.append_nil]
      exact cutAtChar_of_not_mem hcolon
  | some arg => exact cutAtChar_eq_some_iff.mpr ⟨rfl, hcolon⟩

/-- **A filter** is cut at its first colon. -/
theorem filterCall?_eq_some_iff {part : List Char} {call : FilterCall} :
    filterCall? part = some call ↔ part = call.text ∧ call.Named := by
  constructor
  · intro h
    rw [filterCall?] at h
    cases hcut : cutAtChar ':' part with
    | none =>
        rw [hcut] at h
        obtain ⟨haccepted, heq⟩ := Option.ite_none_left_eq_some.mp h
        obtain rfl := Option.some.inj heq
        rw [FilterCall.text, FilterCall.Named, String.toList_ofList]
        exact ⟨(List.append_nil _).symm, accepted_iff.mp haccepted⟩
    | some cut =>
        obtain ⟨name, arg⟩ := cut
        rw [hcut] at h
        obtain ⟨haccepted, heq⟩ := Option.ite_none_left_eq_some.mp h
        obtain rfl := Option.some.inj heq
        rw [FilterCall.text, FilterCall.Named, String.toList_ofList]
        show part = name ++ ':' :: (String.ofList arg).toList ∧ _
        rw [String.toList_ofList]
        exact ⟨(cutAtChar_eq_some_iff.mp hcut).1, accepted_iff.mp haccepted⟩
  · rintro ⟨rfl, hnamed⟩
    rw [filterCall?, cutAtChar_text hnamed]
    have haccepted := accepted_iff.mpr hnamed
    obtain ⟨name, arg⟩ := call
    cases arg with
    | none =>
        have htext : FilterCall.text ⟨name, none⟩ = name.toList := List.append_nil _
        rw [htext]
        refine (if_neg haccepted).trans ?_
        rw [String.ofList_toList]
    | some arg =>
        refine (if_neg haccepted).trans ?_
        rw [String.ofList_toList, String.ofList_toList]

/-- **The filters** between bars. -/
theorem mapM_filterCall?_eq_some_iff {parts : List (List Char)} {calls : List FilterCall} :
    parts.mapM filterCall? = some calls ↔
      parts = calls.map FilterCall.text ∧ ∀ call ∈ calls, call.Named := by
  induction parts generalizing calls with
  | nil =>
      refine ⟨fun h => ?_, fun h => ?_⟩
      · obtain rfl : [] = calls := Option.some.inj h
        exact ⟨rfl, List.forall_mem_nil _⟩
      · rw [List.map_eq_nil_iff.mp h.1.symm]
        rfl
  | cons part parts ih =>
      rw [List.mapM_cons]
      refine ⟨fun h => ?_, fun h => ?_⟩
      · obtain ⟨call, hcall, h⟩ := Option.bind_eq_some_iff.mp h
        obtain ⟨rest, hrest, h⟩ := Option.bind_eq_some_iff.mp h
        obtain rfl : call :: rest = calls := Option.some.inj h
        obtain ⟨rfl, hname⟩ := filterCall?_eq_some_iff.mp hcall
        obtain ⟨rfl, hnames⟩ := ih.mp hrest
        exact ⟨rfl, List.forall_mem_cons.mpr ⟨hname, hnames⟩⟩
      · obtain ⟨h, hnamed⟩ := h
        cases calls with
        | nil => cases h
        | cons call calls =>
            obtain ⟨hname, hnames⟩ := List.forall_mem_cons.mp hnamed
            obtain ⟨hpart, hparts⟩ := List.cons.inj h
            rw [filterCall?_eq_some_iff.mpr ⟨hpart, hname⟩, ih.mpr ⟨hparts, hnames⟩]
            rfl

/-- A field's name holds no bar. -/
theorem bar_not_mem_field {field : List Char} (h : ∀ c ∈ field, isFieldChar c = true) :
    '|' ∉ field :=
  fun hin => Bool.false_ne_true (h '|' hin)

/-- **What stands between the braces** makes a token exactly when it is what is
    written there. -/
theorem tokenOf?_eq_some_iff {inner : List Char} {t : Token} :
    tokenOf? inner = some t ↔
      inner = t.inner ∧ t.field.toList ≠ [] ∧ (∀ c ∈ t.field.toList, isFieldChar c = true) ∧
        (∀ call ∈ t.filters, call.Named) ∧ ∀ call ∈ t.filters, '|' ∉ call.text := by
  constructor
  · intro h
    rw [tokenOf?] at h
    obtain ⟨field, parts, hsplit⟩ := List.exists_cons_of_ne_nil (splitAtChar_ne_nil '|' inner)
    rw [hsplit] at h
    obtain ⟨haccepted, h⟩ := Option.ite_none_left_eq_some.mp h
    obtain ⟨filters, hfilters, rfl⟩ := Option.map_eq_some_iff.mp h
    obtain ⟨rfl, hnamed⟩ := mapM_filterCall?_eq_some_iff.mp hfilters
    obtain ⟨hinner, -, hbars⟩ := splitAtChar_eq_iff.mp hsplit
    obtain ⟨hne, hchars⟩ := accepted_iff.mp haccepted
    rw [Token.inner, String.toList_ofList]
    exact ⟨hinner, hne, hchars, hnamed, fun call hcall => hbars _ (List.mem_map_of_mem hcall)⟩
  · rintro ⟨rfl, hne, hchars, hnamed, hbars⟩
    have hsplit : splitAtChar '|' t.inner = t.field.toList :: t.filters.map FilterCall.text :=
      splitAtChar_eq_iff.mpr ⟨rfl, bar_not_mem_field hchars, List.forall_mem_map.mpr hbars⟩
    rw [tokenOf?, hsplit]
    refine (if_neg (accepted_iff.mpr ⟨hne, hchars⟩)).trans ?_
    rw [mapM_filterCall?_eq_some_iff.mpr ⟨rfl, hnamed⟩, String.ofList_toList]
    rfl

/-- **The scanner's tokens** are the written ones. -/
theorem scanToken?_eq_some_iff {cs rest : List Char} {t : Token} :
    scanToken? cs = some (t, rest) ↔ cs = t.text ++ rest ∧ t.WellFormed := by
  have htext : t.text ++ rest = ['{', '{'] ++ (t.inner ++ '}' :: '}' :: rest) :=
    congrArg ('{' :: '{' :: ·) (List.append_assoc _ _ _)
  constructor
  · intro h
    obtain ⟨body, hbody, h⟩ := Option.bind_eq_some_iff.mp h
    obtain ⟨⟨inner, after⟩, hcut, h⟩ := Option.bind_eq_some_iff.mp h
    obtain ⟨token, htoken, h⟩ := Option.bind_eq_some_iff.mp h
    obtain ⟨rfl, rfl⟩ := Prod.mk.inj (Option.some.inj h)
    obtain ⟨rfl, hne, hchars, hnamed, hbars⟩ := tokenOf?_eq_some_iff.mp htoken
    obtain ⟨rfl, hcloses⟩ := cutAt_braces_iff.mp hcut
    exact ⟨(afterLead_eq_some_iff.mp hbody).trans htext.symm, hne, hchars, hnamed, hbars, hcloses⟩
  · rintro ⟨rfl, h⟩
    have htoken := tokenOf?_eq_some_iff.mpr
      ⟨rfl, h.field_ne_nil, h.field_chars, h.filters_named, h.filters_bar⟩
    rw [htext, scanToken?, afterLead_eq_some_iff.mpr rfl]
    show (cutAt ['}', '}'] (t.inner ++ '}' :: '}' :: rest)).bind _ = _
    rw [cutAt_braces_iff.mpr ⟨rfl, h.closes⟩]
    show (tokenOf? t.inner).bind _ = _
    rw [htoken]
    rfl

end PageLoom.Content
