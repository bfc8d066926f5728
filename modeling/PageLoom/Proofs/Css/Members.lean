import PageLoom.Proofs.Css.Reading

/-!
# Rewritten selector lists — members keep their places

    Scoping rewrites a selector list member by member: blank members go,
    the others are trimmed, get a lead in front and are joined by a comma
    and a space.  None of this moves a scan.  Leads are inert (no quotes,
    brackets, braces or separators), trimming takes off white space only,
    and joints stand where the splitter cut.  So a rewritten list ends in
    the same string and at the same level as the list it came from, and
    whatever text comes after both is split alike (`members_join`).
-/

namespace PageLoom.Css

open Text

/-! ## Trimming does not move a scan -/

/-- Trimming keeps the level. -/
theorem levelAfter_trim {k : Counter} (hk : SkipsBlanks k) {q : Quoting} (hq : q.Proper)
    (hs : q.settle = q) {n m : Nat} {t : List Char} (h : levelAfter k q n t = some m) :
    levelAfter k q n (trim t) = some m := by
  obtain ⟨a, b, ha, hb, ht, -⟩ := exists_trim t
  rw [ht, List.append_assoc, levelAfter_append_of_some (levelAfter_allBlank hk ha q n),
    Quoting.after_allBlank hq hs ha] at h
  obtain ⟨l, hl, hrest⟩ := exists_levelAfter_of_append h
  rw [levelAfter_allBlank hk hb] at hrest
  rw [hl, hrest]

/-- Trimming keeps where a scan settles. -/
theorem settle_after_trim {q : Quoting} (hq : q.Proper) (hs : q.settle = q) (t : List Char) :
    (q.after (trim t)).settle = (q.after t).settle := by
  obtain ⟨a, b, ha, hb, ht, -⟩ := exists_trim t
  conv => rhs; rw [ht]
  rw [List.append_assoc, Quoting.after_append, Quoting.after_allBlank hq hs ha,
    Quoting.after_append, Quoting.settle_after_allBlank (Quoting.proper_after hq _) hb]

/-- Trimming a text that ends outside strings leaves one that does. -/
theorem code_after_trim {q : Quoting} (hq : q.Proper) (hs : q.settle = q) {t : List Char}
    (h : q.after t = .code) : q.after (trim t) = .code := by
  rw [← Quoting.settle_eq_code_iff, settle_after_trim hq hs, h]
  rfl

/-- Trimming the start keeps the level and where a scan stands. -/
theorem scan_trimStart {k : Counter} (hk : SkipsBlanks k) {q : Quoting} (hq : q.Proper)
    (hs : q.settle = q) (n : Nat) (t : List Char) :
    levelAfter k q n (trimStart t) = levelAfter k q n t ∧ q.after (trimStart t) = q.after t := by
  obtain ⟨a, ha, ht, -⟩ := exists_trimStart t
  constructor
  · conv => rhs; rw [ht]
    rw [levelAfter_append_of_some (levelAfter_allBlank hk ha q n), Quoting.after_allBlank hq hs ha]
  · conv => rhs; rw [ht]
    rw [Quoting.after_append, Quoting.after_allBlank hq hs ha]

/-! ## Leads -/

/-- A text that no scan takes notice of. -/
def Inert (t : List Char) : Prop :=
  ∀ c ∈ t, isQuote c = false ∧ Skips braces c ∧ Skips brackets c

theorem Inert.code_after {t : List Char} (h : Inert t) : Quoting.code.after t = .code :=
  Quoting.code_after_of_not_quote fun c hc => (h c hc).1

/-- A counter that does not see inert texts. -/
def SkipsInert (k : Counter) : Prop :=
  ∀ t, Inert t → ∀ c ∈ t, Skips k c

theorem skipsInert_braces : SkipsInert braces := fun _ ht c hc => (ht c hc).2.1

theorem skipsInert_brackets : SkipsInert brackets := fun _ ht c hc => (ht c hc).2.2

/-- A rewriting of members that only exchanges an inert lead. -/
def ExchangesLead (f : List Char → List Char) : Prop :=
  ∀ m, ∃ lead lead' rest, m = lead ++ rest ∧ f m = lead' ++ rest ∧ Inert lead ∧ Inert lead'

namespace ExchangesLead

variable {f : List Char → List Char}

/-- Exchanging a lead does not move a scan. -/
theorem after_eq (hf : ExchangesLead f) (m : List Char) :
    Quoting.code.after (f m) = Quoting.code.after m := by
  obtain ⟨lead, lead', rest, hm, hfm, hl, hl'⟩ := hf m
  rw [hfm, hm, Quoting.after_append, Quoting.after_append, hl.code_after, hl'.code_after]

/-- Exchanging a lead does not change the level. -/
theorem level_eq (hf : ExchangesLead f) {k : Counter} (hk : SkipsInert k) (m : List Char) :
    levelAfter k .code 0 (f m) = levelAfter k .code 0 m := by
  obtain ⟨lead, lead', rest, hm, hfm, hl, hl'⟩ := hf m
  rw [hfm, hm, levelAfter_append_of_some (levelAfter_of_skips (hk _ hl) _ _), hl.code_after,
    levelAfter_append_of_some (levelAfter_of_skips (hk _ hl') _ _), hl'.code_after]

end ExchangesLead

/-! ## Classes -/

/-- Characters of a class name: no white space, no quote, and none that
    structures selectors or rules. -/
def isClassChar (c : Char) : Bool :=
  !isBlank c && !isQuote c && !(['(', ')', '[', ']', '{', '}', ',', ';', '.'].contains c)

/-- **One class name.** -/
def IsClassName (cls : List Char) : Prop :=
  cls ≠ [] ∧ ∀ c ∈ cls, isClassChar c = true

instance (cls : List Char) : Decidable (IsClassName cls) :=
  @instDecidableAnd _ _ inferInstance (List.decidableBAll _ cls)

theorem isClassChar_iff {c : Char} :
    isClassChar c = true ↔ isBlank c = false ∧ isQuote c = false ∧
      c ∉ ['(', ')', '[', ']', '{', '}', ',', ';', '.'] := by
  simp only [isClassChar, Bool.and_eq_true, Bool.not_eq_true', List.contains_eq_mem,
    decide_eq_false_iff_not, and_assoc]

theorem IsClassName.inert {cls : List Char} (h : IsClassName cls) : Inert cls := by
  intro c hc
  obtain ⟨-, hquote, hmem⟩ := isClassChar_iff.mp (h.2 c hc)
  simp only [List.mem_cons, List.not_mem_nil, or_false, not_or] at hmem
  obtain ⟨h1, h2, h3, h4, h5, h6, h7, h8, -⟩ := hmem
  exact ⟨hquote, skips_braces_iff.mpr ⟨h5, h6, h8⟩, skips_brackets_of ⟨h1, h3, h2, h4, h7⟩⟩

/-- A class name is its own scope name. -/
theorem IsClassName.scopeName_eq {cls : List Char} (h : IsClassName cls) :
    scopeName cls = cls := by
  have hblank : ∀ c ∈ cls, isBlank c = false := fun c hc => (isClassChar_iff.mp (h.2 c hc)).1
  have hsolid : Solid cls :=
    ⟨fun c hc => hblank c (List.mem_of_head? hc), fun c hc => hblank c (List.mem_of_getLast? hc)⟩
  show (trim cls).dropWhile (· == '.') = cls
  rw [trim_of_solid hsolid]
  cases cls with
  | nil => rfl
  | cons c cls =>
      have hdot : (c == '.') = false := by
        rw [beq_eq_false_iff_ne]
        rintro rfl
        exact absurd (h.2 '.' List.mem_cons_self) (by decide)
      rw [List.dropWhile_cons, hdot]
      rfl

/-- **What scoping makes of a member**: a member that starts with an at-sign or
    holds a percent sign is kept, the class takes the place of the root, and
    any other member comes below the class. -/
theorem scopeMember_cases (cls m : List Char) :
    ((m.head? = some '@' ∨ '%' ∈ m) ∧ scopeMember cls m = m) ∨
      ¬(m.head? = some '@' ∨ '%' ∈ m) ∧
        ((∃ rest, m = [':', 'r', 'o', 'o', 't'] ++ rest ∧ scopeMember cls m = '.' :: cls ++ rest) ∨
          ¬[':', 'r', 'o', 'o', 't'] <+: m ∧ scopeMember cls m = '.' :: cls ++ ' ' :: m) := by
  have hkept : (m.head? = some '@' || m.contains '%') = true ↔ m.head? = some '@' ∨ '%' ∈ m := by
    rw [Bool.or_eq_true, List.contains_iff_mem, decide_eq_true_eq]
  by_cases h : m.head? = some '@' ∨ '%' ∈ m
  · exact Or.inl ⟨h, if_pos (hkept.mpr h)⟩
  · have hscoped : ¬(m.head? = some '@' || m.contains '%') = true := fun hk => h (hkept.mp hk)
    refine Or.inr ⟨h, ?_⟩
    cases hroot : afterLead [':', 'r', 'o', 'o', 't'] m with
    | some rest =>
        refine Or.inl ⟨rest, afterLead_eq_some_iff.mp hroot, ?_⟩
        rw [scopeMember, if_neg hscoped, hroot]
    | none =>
        refine Or.inr ⟨?_, ?_⟩
        · rintro ⟨rest, hrest⟩
          rw [afterLead_eq_some_iff.mpr hrest.symm] at hroot
          cases hroot
        · rw [scopeMember, if_neg hscoped, hroot]

/-- **Scoping a member exchanges a lead.** -/
theorem exchangesLead_scopeMember {cls : List Char} (h : IsClassName cls) :
    ExchangesLead (scopeMember cls) := by
  have hnil : Inert [] := List.forall_mem_nil _
  have hdot : Inert ('.' :: cls) := by
    intro c hc
    rcases List.mem_cons.mp hc with rfl | hc
    · exact ⟨by decide, skips_braces_iff.mpr (by decide), skips_brackets_of (by decide)⟩
    · exact h.inert c hc
  intro m
  rcases scopeMember_cases cls m with ⟨-, hself⟩ | ⟨-, ⟨rest, hroot, hscoped⟩ | ⟨-, hscoped⟩⟩
  · exact ⟨[], [], m, rfl, hself, hnil, hnil⟩
  · refine ⟨[':', 'r', 'o', 'o', 't'], '.' :: cls, rest, hroot, hscoped, ?_, hdot⟩
    intro c hc
    simp only [List.mem_cons, List.not_mem_nil, or_false] at hc
    rcases hc with rfl | rfl | rfl | rfl | rfl <;>
      exact ⟨by decide, skips_braces_iff.mpr (by decide), skips_brackets_of (by decide)⟩
  · refine ⟨[], '.' :: cls ++ [' '], m, rfl, ?_, hnil, ?_⟩
    · rw [hscoped, List.append_assoc]
      rfl
    · intro c hc
      rcases List.mem_append.mp hc with hc | hc
      · exact hdot c hc
      · rw [List.mem_singleton.mp hc]
        exact ⟨by decide, skips_braces_iff.mpr (by decide), skips_brackets_of (by decide)⟩

/-! ## Joined members -/

/-- The members that scoping rewrites: trimmed, blank ones left out. -/
def cleanMembers (selectors : List Char) : List (List Char) :=
  ((selectorMembers selectors).map trim).filter fun m => !m.isEmpty

/-- Members as one selector list. -/
def joinMembers (members : List (List Char)) : List Char :=
  [',', ' '].intercalate members

theorem joinMembers_singleton (m : List Char) : joinMembers [m] = m :=
  List.intercalate_singleton

theorem joinMembers_cons_cons (m m' : List Char) (ms : List (List Char)) :
    joinMembers (m :: m' :: ms) = m ++ ',' :: ' ' :: joinMembers (m' :: ms) := by
  rw [joinMembers, List.intercalate_cons_cons, List.append_assoc]
  rfl

/-- The first member stands in front of the others. -/
theorem exists_joinMembers_cons (ms : List (List Char)) :
    ∃ t, ∀ m, joinMembers (m :: ms) = m ++ t := by
  cases ms with
  | nil => exact ⟨[], fun m => by rw [joinMembers_singleton, List.append_nil]⟩
  | cons m' ms => exact ⟨_, fun m => joinMembers_cons_cons m m' ms⟩

/-- Members that a comma can follow, and a last one without a cut. -/
def Joinable : List (List Char) → Prop
  | [] => True
  | [m] => ∃ n, levelAfter brackets .code 0 m = some n
  | m :: m' :: ms =>
      Quoting.code.after m = .code ∧ levelAfter brackets .code 0 m = some 0 ∧ Joinable (m' :: ms)

/-- The bracket level at the end of joined members. -/
def lastLevel : List (List Char) → Nat
  | [] => 0
  | [m] => (levelAfter brackets .code 0 m).getD 0
  | _ :: m' :: ms => lastLevel (m' :: ms)

/-- Induction along the cuts of a selector list. -/
theorem members_induction {P : List Char → Prop}
    (uncut : ∀ t n, levelAfter brackets .code 0 t = some n → P t)
    (cut : ∀ u rest, Quoting.code.after u = .code → levelAfter brackets .code 0 u = some 0 →
      P rest → P (u ++ ',' :: rest)) (t : List Char) : P t := by
  induction hlen : t.length using Nat.strongRecOn generalizing t with
  | ind len ih =>
      subst hlen
      cases hn : levelAfter brackets .code 0 t with
      | some n => exact uncut t n hn
      | none =>
          obtain ⟨u, c, rest, m, rfl, hu, hm, hcut⟩ := exists_cut hn
          obtain ⟨rfl, rfl⟩ := brackets_eq_none_iff.mp hcut
          refine cut u rest hu hm (ih rest.length ?_ rest rfl)
          simp only [List.length_append, List.length_cons]
          omega

/-- What a member contributes: itself trimmed, or nothing when it is blank. -/
def cleaned (m : List Char) : List (List Char) :=
  if trim m = [] then [] else [trim m]

private theorem filter_cleaned (m : List Char) (ms : List (List Char)) :
    ((m :: ms).map trim).filter (fun m => !m.isEmpty) =
      cleaned m ++ (ms.map trim).filter fun m => !m.isEmpty := by
  rw [List.map_cons, List.filter_cons, cleaned]
  cases htrim : trim m with
  | nil => rfl
  | cons c t => rfl

theorem cleanMembers_of_uncut {t : List Char} {n : Nat}
    (h : levelAfter brackets .code 0 t = some n) : cleanMembers t = cleaned t := by
  rw [cleanMembers, members_of_uncut h, filter_cleaned]
  exact List.append_nil _

theorem cleanMembers_of_cut {u : List Char} (hu : Quoting.code.after u = .code)
    (h : levelAfter brackets .code 0 u = some 0) (rest : List Char) :
    cleanMembers (u ++ ',' :: rest) = cleaned u ++ cleanMembers rest := by
  rw [cleanMembers, members_of_cut hu h, filter_cleaned]
  rfl

/-- Clean members are solid and not empty. -/
theorem solid_of_mem_cleanMembers {m selectors : List Char} (h : m ∈ cleanMembers selectors) :
    Solid m ∧ m ≠ [] := by
  obtain ⟨hm, hne⟩ := List.mem_filter.mp h
  obtain ⟨t, -, rfl⟩ := List.mem_map.mp hm
  obtain ⟨-, -, -, -, -, hsolid⟩ := exists_trim t
  refine ⟨hsolid, fun hnil => ?_⟩
  rw [hnil] at hne
  exact absurd hne (by decide)

/-- Clean members can be joined. -/
theorem joinable_cleanMembers (selectors : List Char) : Joinable (cleanMembers selectors) := by
  induction selectors using members_induction with
  | uncut t n h =>
      rw [cleanMembers_of_uncut h, cleaned]
      split
      · exact trivial
      · exact ⟨n, levelAfter_trim (q := .code) skipsBlanks_brackets trivial rfl h⟩
  | cut u rest hu h ih =>
      rw [cleanMembers_of_cut hu h, cleaned]
      split
      · exact ih
      · have hlevel := levelAfter_trim (q := .code) skipsBlanks_brackets trivial rfl h
        cases hrest : cleanMembers rest with
        | nil => exact ⟨0, hlevel⟩
        | cons m ms =>
            rw [hrest] at ih
            exact ⟨code_after_trim (q := .code) trivial rfl hu, hlevel, ih⟩

/-- A joint does not move a scan. -/
private theorem after_joint {m : List Char} (hm : Quoting.code.after m = .code) (t : List Char) :
    Quoting.code.after (m ++ ',' :: ' ' :: t) = Quoting.code.after t := by
  rw [Quoting.after_append, hm]
  rfl

/-- A joint does not change the brace level. -/
private theorem braces_joint {m : List Char} (hm : Quoting.code.after m = .code)
    (h : levelAfter braces .code 0 m = some 0) (t : List Char) :
    levelAfter braces .code 0 (m ++ ',' :: ' ' :: t) = levelAfter braces .code 0 t := by
  rw [levelAfter_append_of_some h, hm]
  rfl

/-- Joined clean members leave a scan where the list leaves it. -/
theorem settle_after_joinMembers (selectors : List Char) :
    (Quoting.code.after (joinMembers (cleanMembers selectors))).settle =
      (Quoting.code.after selectors).settle := by
  induction selectors using members_induction with
  | uncut t n h =>
      have ht := settle_after_trim (q := .code) trivial rfl t
      rw [cleanMembers_of_uncut h, cleaned]
      split
      · rename_i hnil
        rw [hnil] at ht
        exact ht
      · rw [joinMembers_singleton]
        exact ht
  | cut u rest hu h ih =>
      have hwhole : Quoting.code.after (u ++ ',' :: rest) = Quoting.code.after rest := by
        rw [Quoting.after_append, hu]
        rfl
      rw [cleanMembers_of_cut hu h, hwhole, ← ih, cleaned]
      split
      · rfl
      · have htrim := code_after_trim (q := .code) trivial rfl hu
        cases cleanMembers rest with
        | nil =>
            show (Quoting.code.after (joinMembers [trim u])).settle = _
            rw [joinMembers_singleton, htrim]
            rfl
        | cons m ms =>
            show (Quoting.code.after (joinMembers (trim u :: m :: ms))).settle = _
            rw [joinMembers_cons_cons, after_joint htrim]

/-- Joined clean members have no brace cut when the list has none. -/
theorem braces_joinMembers {selectors : List Char}
    (h : levelAfter braces .code 0 selectors = some 0) :
    levelAfter braces .code 0 (joinMembers (cleanMembers selectors)) = some 0 := by
  induction selectors using members_induction with
  | uncut t n hn =>
      rw [cleanMembers_of_uncut hn, cleaned]
      split
      · rfl
      · rw [joinMembers_singleton]
        exact levelAfter_trim (q := .code) skipsBlanks_braces trivial rfl h
  | cut u rest hu hn ih =>
      obtain ⟨hlevel, hafter⟩ := levelAfter_zero_of_append h
      rw [hu] at hafter
      have hrest : levelAfter braces .code 0 rest = some 0 := hafter
      rw [cleanMembers_of_cut hu hn, cleaned]
      split
      · exact ih hrest
      · have htrim := levelAfter_trim (q := .code) skipsBlanks_braces trivial rfl hlevel
        have hcode := code_after_trim (q := .code) trivial rfl hu
        cases hclean : cleanMembers rest with
        | nil =>
            show levelAfter braces .code 0 (joinMembers [trim u]) = some 0
            rw [joinMembers_singleton]
            exact htrim
        | cons m ms =>
            show levelAfter braces .code 0 (joinMembers (trim u :: m :: ms)) = some 0
            rw [joinMembers_cons_cons, braces_joint hcode htrim, ← hclean]
            exact ih hrest

/-! ## Rewritten members -/

section Exchange

variable {f : List Char → List Char} (hf : ExchangesLead f)

include hf

theorem Joinable.map {ms : List (List Char)} (h : Joinable ms) : Joinable (ms.map f) := by
  induction ms with
  | nil => exact trivial
  | cons m ms ih =>
      cases ms with
      | nil =>
          obtain ⟨n, hn⟩ := h
          exact ⟨n, (hf.level_eq skipsInert_brackets m).trans hn⟩
      | cons m' ms =>
          obtain ⟨hm, hlevel, hms⟩ := h
          exact ⟨(hf.after_eq m).trans hm, (hf.level_eq skipsInert_brackets m).trans hlevel, ih hms⟩

theorem after_joinMembers_map {ms : List (List Char)} (h : Joinable ms) :
    Quoting.code.after (joinMembers (ms.map f)) = Quoting.code.after (joinMembers ms) := by
  induction ms with
  | nil => rfl
  | cons m ms ih =>
      cases ms with
      | nil =>
          show Quoting.code.after (joinMembers [f m]) = _
          rw [joinMembers_singleton, joinMembers_singleton, hf.after_eq]
      | cons m' ms =>
          obtain ⟨hm, -, hms⟩ := h
          show Quoting.code.after (joinMembers (f m :: f m' :: ms.map f)) = _
          rw [joinMembers_cons_cons, joinMembers_cons_cons, after_joint hm,
            after_joint ((hf.after_eq m).trans hm)]
          exact ih hms

theorem braces_joinMembers_map {ms : List (List Char)} (h : Joinable ms)
    (hlevel : levelAfter braces .code 0 (joinMembers ms) = some 0) :
    levelAfter braces .code 0 (joinMembers (ms.map f)) = some 0 := by
  induction ms with
  | nil => rfl
  | cons m ms ih =>
      cases ms with
      | nil =>
          rw [joinMembers_singleton] at hlevel
          show levelAfter braces .code 0 (joinMembers [f m]) = some 0
          rw [joinMembers_singleton, hf.level_eq skipsInert_braces]
          exact hlevel
      | cons m' ms =>
          obtain ⟨hm, -, hms⟩ := h
          rw [joinMembers_cons_cons] at hlevel
          obtain ⟨hm0, -⟩ := levelAfter_zero_of_append hlevel
          rw [braces_joint hm hm0] at hlevel
          show levelAfter braces .code 0 (joinMembers (f m :: f m' :: ms.map f)) = some 0
          rw [joinMembers_cons_cons, braces_joint ((hf.after_eq m).trans hm)
            ((hf.level_eq skipsInert_braces m).trans hm0)]
          exact ih hms hlevel

theorem lastLevel_map (ms : List (List Char)) : lastLevel (ms.map f) = lastLevel ms := by
  induction ms with
  | nil => rfl
  | cons m ms ih =>
      cases ms with
      | nil =>
          show (levelAfter brackets .code 0 (f m)).getD 0 = (levelAfter brackets .code 0 m).getD 0
          rw [hf.level_eq skipsInert_brackets]
      | cons m' ms => exact ih

end Exchange

/-! ## Joined members and what follows -/

/-- The members that begin after a comma in a text whose scan starts inside a
    member. -/
def laterMembers (q : Quoting) (n : Nat) (t : List Char) : List (List Char) :=
  (membersFrom q n [] t).tail

/-- The member being read takes the first stretch, and the others do not depend
    on it. -/
theorem exists_membersFrom (q : Quoting) (n : Nat) (t : List Char) :
    ∃ first, ∀ read, membersFrom q n read t = (read.reverse ++ first) :: laterMembers q n t := by
  have key : ∃ first rest, ∀ read, membersFrom q n read t = (read.reverse ++ first) :: rest := by
    induction t generalizing q n with
    | nil => exact ⟨[], [], fun read => by rw [List.append_nil]; rfl⟩
    | cons c t ih =>
        cases hc : levelNext brackets q n c with
        | some m =>
            obtain ⟨first, rest, h⟩ := ih (q.next c) m
            refine ⟨c :: first, rest, fun read => ?_⟩
            rw [membersFrom_step hc, h, List.reverse_cons, List.append_assoc]
            rfl
        | none =>
            have hq : q = .code := by
              by_cases hq : q = .code
              · exact hq
              · rw [levelNext_of_ne hq] at hc
                cases hc
            subst hq
            -- after a comma at the top the members start afresh
            obtain ⟨rfl, rfl⟩ := brackets_eq_none_iff.mp hc
            exact ⟨[], membersFrom .code 0 [] t, fun read => by rw [List.append_nil]; rfl⟩
  obtain ⟨first, rest, h⟩ := key
  refine ⟨first, fun read => ?_⟩
  rw [laterMembers, h [], h read]
  rfl

/-- A blank lead joins the first member. -/
theorem selectorMembers_allBlank_append {a : List Char} (ha : AllBlank a) (t : List Char) :
    ∃ x xs, selectorMembers t = x :: xs ∧ selectorMembers (a ++ t) = (a ++ x) :: xs := by
  obtain ⟨first, h⟩ := exists_membersFrom .code 0 t
  refine ⟨first, laterMembers .code 0 t, h [], ?_⟩
  show membersFrom .code 0 [] (a ++ t) = _
  rw [membersFrom_append (levelAfter_allBlank skipsBlanks_brackets ha .code 0),
    Quoting.code_after_allBlank ha, h, List.append_nil, List.reverse_reverse]

/-- **The members of joined members and a text after them**: first the members
    themselves, the last one going on into the text; then the members that
    begin in the text. -/
theorem members_join {ms : List (List Char)} (hne : ms ≠ []) (h : Joinable ms) (t : List Char) :
    ∃ heads, selectorMembers (joinMembers ms ++ t) =
        heads ++ laterMembers (Quoting.code.after (joinMembers ms)) (lastLevel ms) t ∧
      heads.length = ms.length ∧
      ∀ x ∈ heads, ∃ a m b, x = a ++ m ++ b ∧ m ∈ ms ∧ AllBlank a := by
  induction ms with
  | nil => exact absurd rfl hne
  | cons m ms ih =>
      cases ms with
      | nil =>
          obtain ⟨n, hn⟩ := h
          have hlast : lastLevel [m] = n := by
            show (levelAfter brackets .code 0 m).getD 0 = n
            rw [hn]
            rfl
          obtain ⟨first, hfirst⟩ := exists_membersFrom (Quoting.code.after m) n t
          refine ⟨[m ++ first], ?_, rfl, ?_⟩
          · rw [joinMembers_singleton, hlast]
            show membersFrom .code 0 [] (m ++ t) = _
            rw [membersFrom_append hn, hfirst, List.append_nil, List.reverse_reverse]
            rfl
          · intro x hx
            rw [List.mem_singleton.mp hx]
            exact ⟨[], m, first, rfl, List.mem_cons_self, allBlank_nil⟩
      | cons m' ms =>
          obtain ⟨hm, hlevel, hms⟩ := h
          obtain ⟨heads, hheads, hlen, hmem⟩ := ih (by simp) hms
          have hblank : AllBlank [' '] := by
            intro c hc
            rw [List.mem_singleton.mp hc]
            decide
          -- the blank of the joint goes to the member after it
          obtain ⟨x, xs, hx, hxa⟩ :=
            selectorMembers_allBlank_append hblank (joinMembers (m' :: ms) ++ t)
          have hafter : Quoting.code.after (joinMembers (m :: m' :: ms)) =
              Quoting.code.after (joinMembers (m' :: ms)) := by
            rw [joinMembers_cons_cons, after_joint hm]
          cases heads with
          | nil => cases hlen
          | cons y ys =>
              rw [hheads] at hx
              obtain ⟨rfl, rfl⟩ := List.cons.inj hx
              refine ⟨m :: ([' '] ++ y) :: ys, ?_, ?_, ?_⟩
              · rw [hafter, joinMembers_cons_cons, List.append_assoc, List.cons_append,
                  members_of_cut hm hlevel]
                show m :: selectorMembers ([' '] ++ (joinMembers (m' :: ms) ++ t)) = _
                rw [hxa]
                rfl
              · simp only [List.length_cons] at hlen ⊢
                omega
              · intro z hz
                rcases List.mem_cons.mp hz with rfl | hz
                · exact ⟨[], z, [], by simp, List.mem_cons_self, allBlank_nil⟩
                · rcases List.mem_cons.mp hz with rfl | hz
                  · obtain ⟨a, w, b, rfl, hw, ha⟩ := hmem y List.mem_cons_self
                    exact ⟨[' '] ++ a, w, b, by simp, List.mem_cons_of_mem _ hw,
                      allBlank_append.mpr ⟨hblank, ha⟩⟩
                  · obtain ⟨a, w, b, rfl, hw, ha⟩ := hmem z (List.mem_cons_of_mem _ hz)
                    exact ⟨a, w, b, rfl, List.mem_cons_of_mem _ hw, ha⟩

/-- A scoped member starts with an at-sign exactly when the member does. -/
theorem exists_head_scopeMember (cls : List Char) {m : List Char} (hm : Solid m) (hne : m ≠ []) :
    ∃ c t, scopeMember cls m = c :: t ∧ isBlank c = false ∧ (c = '@' ↔ m.head? = some '@') := by
  rcases scopeMember_cases cls m with ⟨-, hself⟩ | ⟨hnot, ⟨rest, -, hscoped⟩ | ⟨-, hscoped⟩⟩
  · cases m with
    | nil => exact absurd rfl hne
    | cons c m =>
        refine ⟨c, m, hself, hm.1 c rfl, ?_⟩
        rw [List.head?_cons, Option.some.injEq]
  · exact ⟨'.', cls ++ rest, hscoped, by decide, iff_of_false (by decide) fun hat => hnot (.inl hat)⟩
  · exact ⟨'.', cls ++ ' ' :: m, hscoped, by decide,
      iff_of_false (by decide) fun hat => hnot (.inl hat)⟩

/-- The selector of a class is solid. -/
theorem IsClassName.solid {cls : List Char} (h : IsClassName cls) : Solid ('.' :: cls) := by
  constructor
  · rintro c ⟨rfl⟩
    decide
  · intro c hc
    rw [List.getLast?_cons, Option.some.injEq] at hc
    cases hlast : cls.getLast? with
    | none => exact absurd (List.getLast?_eq_none_iff.mp hlast) h.1
    | some d =>
        rw [hlast] at hc
        obtain rfl : d = c := hc
        exact (isClassChar_iff.mp (h.2 d (List.mem_of_getLast? hlast))).1

/-- **A scoped member is confined**, whatever text it goes on into. -/
theorem memberConfined_scopeMember {cls m : List Char} (hcls : IsClassName cls)
    {a : List Char} (ha : AllBlank a) (b : List Char) :
    MemberConfined cls (trim (a ++ scopeMember cls m ++ b)) := by
  have hclass : ∀ rest, scopeMember cls m = '.' :: cls ++ rest →
      MemberConfined cls (trim (a ++ scopeMember cls m ++ b)) := by
    intro rest hscoped
    rw [hscoped, ← List.append_assoc a, List.append_assoc (a ++ _)]
    exact Or.inl (prefix_trim ha hcls.solid (rest ++ b))
  rcases scopeMember_cases cls m with
    ⟨hat | hpercent, hself⟩ | ⟨-, ⟨rest, -, hscoped⟩ | ⟨-, hscoped⟩⟩
  · -- an at-sign stays in front
    obtain ⟨m, rfl⟩ := List.head?_eq_some_iff.mp hat
    have hsolid : Solid ['@'] := by
      constructor <;> rintro c ⟨rfl⟩ <;> decide
    obtain ⟨rest, hrest⟩ := prefix_trim ha hsolid (m ++ b)
    refine Or.inr (Or.inl ?_)
    have hassoc : a ++ '@' :: m ++ b = a ++ ['@'] ++ (m ++ b) := by simp
    rw [hself, hassoc, ← hrest]
    rfl
  · refine Or.inr (Or.inr (mem_trim ?_ (by decide)))
    rw [hself]
    exact List.mem_append_left _ (List.mem_append_right _ hpercent)
  · exact hclass rest hscoped
  · exact hclass (' ' :: m) hscoped

end PageLoom.Css
