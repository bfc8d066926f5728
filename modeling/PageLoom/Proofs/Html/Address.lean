import PageLoom.Html.Encoding
import PageLoom.Proofs.Text.Cut

/-!
# Cleaned addresses — which schemes reach the page

    Cleaning looks at the scheme of an address first and drops characters
    afterwards.  What it writes is harmless in an attribute: an ampersand
    stands only where a reference begins (`ampersand_cleaned`), and neither
    quotes nor angle brackets, backslashes or ASCII white space are left
    (`harmless_of_isKept`).

    What stands before the first colon of a cleaned address, if it is a scheme,
    is what cleaning leaves of the text before the first colon
    (`exists_of_cleaned`).  If nothing is dropped there, the scheme was looked
    at.  If something is, it was not, since the text was no scheme then.  So
    the schemes that get through although they are not allowed are exactly the
    disguised ones (`cleanUrl_allowed_iff`).
-/

namespace PageLoom.Html

open Text

/-- Characters that cleaning keeps as they are. -/
def isKept (c : Char) : Bool :=
  c.isAlphanum || 0x80 ≤ c.toNat || urlMarks.contains c

/-- Characters that cleaning drops. -/
def isDropped (c : Char) : Bool :=
  !(isKept c || c == ' ' || c == '&' || c == '\'')

/-- **Only allowed schemes**: if a text starts with a scheme, the scheme is on the
    list. -/
def HasAllowedScheme (url : List Char) : Prop :=
  ∀ scheme rest, url = scheme ++ ':' :: rest → scheme ≠ [] →
    (∀ c ∈ scheme, isSchemeChar c = true) → String.ofList (lowerAscii scheme) ∈ allowedSchemes

/-- **A disguised scheme**: before a colon stand characters of a scheme and, among
    them, characters that cleaning drops; without these it is a scheme that is
    not on the list. -/
def DisguisesScheme (url : List Char) : Prop :=
  ∃ before after, url = before ++ ':' :: after ∧
    (∀ c ∈ before, isSchemeChar c = true ∨ isDropped c = true) ∧
    (∃ c ∈ before, isDropped c = true) ∧
    before.filter isSchemeChar ≠ [] ∧
    String.ofList (lowerAscii (before.filter isSchemeChar)) ∉ allowedSchemes

/-! ## One character -/

/-- **What cleaning makes of a character.** -/
theorem cleanChar_cases (c : Char) :
    (isKept c = true ∧ cleanChar c = [c]) ∨ (isDropped c = true ∧ cleanChar c = []) ∨
      (c = ' ' ∧ cleanChar c = ['%', '2', '0']) ∨
      (c = '&' ∧ cleanChar c = '&' :: ['#', '0', '3', '8', ';']) ∨
      (c = '\'' ∧ cleanChar c = '&' :: ['#', '0', '3', '9', ';']) := by
  by_cases hspace : c = ' '
  · subst hspace
    exact .inr (.inr (.inl ⟨rfl, rfl⟩))
  by_cases hand : c = '&'
  · subst hand
    exact .inr (.inr (.inr (.inl ⟨rfl, rfl⟩)))
  by_cases hquote : c = '\''
  · subst hquote
    exact .inr (.inr (.inr (.inr ⟨rfl, rfl⟩)))
  have hclean : cleanChar c = if isKept c then [c] else [] := by
    rw [cleanChar, if_neg (by simpa using hspace), if_neg (by simpa using hand),
      if_neg (by simpa using hquote)]
    rfl
  cases hkept : isKept c with
  | true =>
      rw [hkept, if_pos rfl] at hclean
      exact .inl ⟨rfl, hclean⟩
  | false =>
      rw [hkept, if_neg Bool.false_ne_true] at hclean
      refine .inr (.inl ⟨?_, hclean⟩)
      rw [isDropped, hkept]
      simp [hspace, hand, hquote]

/-- Characters of a scheme are kept. -/
theorem isKept_of_isSchemeChar {c : Char} (h : isSchemeChar c = true) : isKept c = true := by
  simp only [isSchemeChar, Bool.or_eq_true, beq_iff_eq] at h
  rcases h with ((h | rfl) | rfl) | rfl
  · rw [isKept, h]
    rfl
  all_goals decide

theorem not_isDropped_of_isKept {c : Char} (h : isKept c = true) : isDropped c = false := by
  rw [isDropped, h]
  rfl

theorem cleanChar_of_isKept {c : Char} (h : isKept c = true) : cleanChar c = [c] := by
  rcases cleanChar_cases c with ⟨-, hclean⟩ | ⟨hdropped, -⟩ | ⟨rfl, -⟩ | ⟨rfl, -⟩ | ⟨rfl, -⟩
  · exact hclean
  · rw [not_isDropped_of_isKept h] at hdropped
    cases hdropped
  all_goals exact absurd h (by decide)

theorem cleanChar_of_isDropped {c : Char} (h : isDropped c = true) : cleanChar c = [] := by
  rcases cleanChar_cases c with ⟨hkept, -⟩ | ⟨-, hclean⟩ | ⟨rfl, -⟩ | ⟨rfl, -⟩ | ⟨rfl, -⟩
  · rw [not_isDropped_of_isKept hkept] at h
    cases h
  · exact hclean
  all_goals exact absurd h (by decide)

/-! ## Schemes -/

/-- Before a colon, cleaning leaves the characters of the scheme. -/
theorem flatMap_cleanChar {before : List Char}
    (h : ∀ c ∈ before, isSchemeChar c = true ∨ isDropped c = true) :
    before.flatMap cleanChar = before.filter isSchemeChar := by
  induction before with
  | nil => rfl
  | cons c before ih =>
      obtain ⟨hc, hbefore⟩ := List.forall_mem_cons.mp h
      rw [List.flatMap_cons, ih hbefore]
      cases hscheme : isSchemeChar c with
      | true =>
          rw [cleanChar_of_isKept (isKept_of_isSchemeChar hscheme), List.filter_cons_of_pos hscheme]
          rfl
      | false =>
          have hdropped := hc.resolve_left (by rw [hscheme]; exact Bool.false_ne_true)
          rw [cleanChar_of_isDropped hdropped,
            List.filter_cons_of_neg (by rw [hscheme]; exact Bool.false_ne_true)]
          rfl

/-- **Where a scheme of a cleaned text comes from**: the text before the colon
    holds its characters and dropped ones. -/
theorem exists_of_cleaned {url scheme rest : List Char}
    (h : url.flatMap cleanChar = scheme ++ ':' :: rest)
    (hscheme : ∀ c ∈ scheme, isSchemeChar c = true) :
    ∃ before after, url = before ++ ':' :: after ∧
      (∀ c ∈ before, isSchemeChar c = true ∨ isDropped c = true) ∧
      before.filter isSchemeChar = scheme := by
  induction url generalizing scheme with
  | nil => exact absurd h.symm (by simp)
  | cons c url ih =>
      rw [List.flatMap_cons] at h
      rcases cleanChar_cases c with ⟨-, hclean⟩ | ⟨hdropped, hclean⟩ | hcoded
      · rw [hclean, List.singleton_append] at h
        cases scheme with
        | nil =>
            obtain ⟨rfl, -⟩ := List.cons.inj h
            exact ⟨[], url, rfl, List.forall_mem_nil _, rfl⟩
        | cons d scheme =>
            obtain ⟨rfl, hurl⟩ := List.cons.inj h
            obtain ⟨hc, hscheme⟩ := List.forall_mem_cons.mp hscheme
            obtain ⟨before, after, rfl, hbefore, hfilter⟩ := ih hurl hscheme
            refine ⟨c :: before, after, rfl,
              List.forall_mem_cons (p := fun c => isSchemeChar c = true ∨ isDropped c = true).mpr
                ⟨Or.inl hc, hbefore⟩, ?_⟩
            rw [List.filter_cons_of_pos hc, hfilter]
      · rw [hclean, List.nil_append] at h
        obtain ⟨before, after, rfl, hbefore, hfilter⟩ := ih h hscheme
        refine ⟨c :: before, after, rfl,
          List.forall_mem_cons (p := fun c => isSchemeChar c = true ∨ isDropped c = true).mpr
            ⟨Or.inr hdropped, hbefore⟩, ?_⟩
        have hc : ¬isSchemeChar c = true := fun hc => by
          rw [not_isDropped_of_isKept (isKept_of_isSchemeChar hc)] at hdropped
          cases hdropped
        rw [List.filter_cons_of_neg hc, hfilter]
      · -- a code starts with a character that is neither in a scheme nor a colon
        have hhead : ∃ d ds, cleanChar c = d :: ds ∧ isSchemeChar d = false ∧ d ≠ ':' := by
          rcases hcoded with ⟨-, hclean⟩ | ⟨-, hclean⟩ | ⟨-, hclean⟩
          all_goals exact ⟨_, _, hclean, by decide, by decide⟩
        obtain ⟨d, ds, hclean, hd, hcolon⟩ := hhead
        rw [hclean] at h
        cases scheme with
        | nil => exact absurd (List.cons.inj h).1 hcolon
        | cons e scheme =>
            obtain ⟨rfl, -⟩ := List.cons.inj h
            rw [hscheme d List.mem_cons_self] at hd
            cases hd

/-! ## What is left of a text -/

/-- A character that a text does not hold stands after it. -/
theorem exists_of_append_cons {d : Char} {x y a b : List Char} (hd : d ∉ x)
    (h : x ++ y = a ++ d :: b) : ∃ a', y = a' ++ d :: b := by
  rcases List.append_eq_append_iff.mp h with ⟨a', -, hy⟩ | ⟨z, hx, hz⟩
  · exact ⟨a', hy⟩
  · cases z with
    | nil => exact ⟨[], hz.symm⟩
    | cons e z =>
        obtain ⟨rfl, -⟩ := List.cons.inj hz
        exact absurd (hx ▸ List.mem_append_right _ List.mem_cons_self) hd

/-- **An ampersand** of a cleaned text begins a reference. -/
theorem ampersand_cleaned {url a b : List Char} (h : url.flatMap cleanChar = a ++ '&' :: b) :
    ['#', '0', '3', '8', ';'] <+: b ∨ ['#', '0', '3', '9', ';'] <+: b := by
  induction url generalizing a with
  | nil => exact absurd h.symm (by simp)
  | cons c url ih =>
      rw [List.flatMap_cons] at h
      -- a reference is read whole, or the ampersand stands after it
      have hreference : ∀ ds, cleanChar c = '&' :: ds → '&' ∉ ds →
          ds <+: b ∨ ∃ a', url.flatMap cleanChar = a' ++ '&' :: b := by
        intro ds hclean hds
        rw [hclean, List.cons_append] at h
        cases a with
        | nil => exact Or.inl ⟨_, (List.cons.inj h).2⟩
        | cons d a => exact Or.inr (exists_of_append_cons hds (List.cons.inj h).2)
      have hother : '&' ∉ cleanChar c → ∃ a', url.flatMap cleanChar = a' ++ '&' :: b :=
        fun hclean => exists_of_append_cons hclean h
      rcases cleanChar_cases c with ⟨hkept, hclean⟩ | ⟨-, hclean⟩ | ⟨-, hclean⟩ | ⟨-, hclean⟩ |
        ⟨-, hclean⟩
      · have hne : '&' ∉ cleanChar c := by
          rw [hclean, List.mem_singleton]
          rintro rfl
          exact absurd hkept (by decide)
        obtain ⟨a', ha'⟩ := hother hne
        exact ih ha'
      · obtain ⟨a', ha'⟩ := hother (by rw [hclean]; decide)
        exact ih ha'
      · obtain ⟨a', ha'⟩ := hother (by rw [hclean]; decide)
        exact ih ha'
      · rcases hreference _ hclean (by decide) with hb | ⟨a', ha'⟩
        · exact Or.inl hb
        · exact ih ha'
      · rcases hreference _ hclean (by decide) with hb | ⟨a', ha'⟩
        · exact Or.inr hb
        · exact ih ha'

/-- **What a cleaned text holds**: characters that are kept, and ampersands. -/
theorem isKept_of_mem_cleaned {url : List Char} {d : Char} (h : d ∈ url.flatMap cleanChar)
    (hd : d ≠ '&') : isKept d = true := by
  obtain ⟨c, -, hmem⟩ := List.mem_flatMap.mp h
  -- a reference holds kept characters after its ampersand
  have hreference : ∀ ds, cleanChar c = '&' :: ds → (∀ e ∈ ds, isKept e = true) →
      isKept d = true := by
    intro ds hclean hds
    rw [hclean] at hmem
    exact hds d ((List.mem_cons.mp hmem).resolve_left hd)
  rcases cleanChar_cases c with ⟨hkept, hclean⟩ | ⟨-, hclean⟩ | ⟨-, hclean⟩ | ⟨-, hclean⟩ |
    ⟨-, hclean⟩
  · rw [hclean, List.mem_singleton] at hmem
    rw [hmem]
    exact hkept
  · rw [hclean] at hmem
    cases hmem
  · rw [hclean] at hmem
    exact List.all_eq_true.mp (by decide : ['%', '2', '0'].all isKept = true) d hmem
  · exact hreference _ hclean (List.all_eq_true.mp (by decide))
  · exact hreference _ hclean (List.all_eq_true.mp (by decide))

/-- No character that is kept does harm in an attribute. -/
theorem harmless_of_isKept {c : Char} (h : isKept c = true) :
    isSpacing c = false ∧ c ∉ ['"', '\'', '<', '>', '\\'] := by
  constructor
  · cases hspacing : isSpacing c with
    | false => rfl
    | true =>
        simp only [isSpacing, Bool.or_eq_true, beq_iff_eq] at hspacing
        rcases hspacing with (((rfl | rfl) | rfl) | rfl) | rfl <;> exact absurd h (by decide)
  · intro hc
    have hdropped : (['"', '\'', '<', '>', '\\'].all fun d => !isKept d) = true := by decide
    have hc' := List.all_eq_true.mp hdropped c hc
    rw [h] at hc'
    cases hc'

/-! ## Cleaned addresses -/

theorem toList_cleanUrl (s : String) :
    (cleanUrl s).toList =
      if hasForbiddenScheme (trim s.toList) then [] else (trim s.toList).flatMap cleanChar := by
  rw [cleanUrl]
  split
  · rfl
  · rw [String.toList_ofList]

/-- A text that is cut at its first colon. -/
private theorem hasForbiddenScheme_append {before after : List Char} (hcolon : ':' ∉ before) :
    hasForbiddenScheme (before ++ ':' :: after) =
      (!before.isEmpty && before.all isSchemeChar
        && !allowedSchemes.contains (String.ofList (lowerAscii before))) := by
  rw [hasForbiddenScheme, cutAtChar_eq_some_iff.mpr ⟨rfl, hcolon⟩]

/-- Before the colon of a scheme, disguised or not, stands no other. -/
theorem colon_not_mem {before : List Char}
    (h : ∀ c ∈ before, isSchemeChar c = true ∨ isDropped c = true) : ':' ∉ before := by
  intro hcolon
  rcases h ':' hcolon with h | h
  · exact absurd h (by decide)
  · exact absurd h (by decide)

/-- **A disguised scheme passes**, and cleaning takes off the disguise. -/
theorem DisguisesScheme.passes {url : List Char} (h : DisguisesScheme url) :
    hasForbiddenScheme url = false ∧ ¬HasAllowedScheme (url.flatMap cleanChar) := by
  obtain ⟨before, after, rfl, hbefore, ⟨c, hc, hdropped⟩, hne, hforbidden⟩ := h
  constructor
  · have hnot : before.all isSchemeChar = false := by
      rw [List.all_eq_false]
      refine ⟨c, hc, fun hscheme => ?_⟩
      rw [not_isDropped_of_isKept (isKept_of_isSchemeChar hscheme)] at hdropped
      cases hdropped
    rw [hasForbiddenScheme_append (colon_not_mem hbefore), hnot, Bool.and_false, Bool.false_and]
  · intro hallowed
    refine hforbidden (hallowed _ (after.flatMap cleanChar) ?_ hne fun c hc =>
      (List.mem_filter.mp hc).2)
    rw [List.flatMap_append, flatMap_cleanChar hbefore, List.flatMap_cons]
    rfl

/-- **Without a disguise** the scheme that is left has been looked at. -/
theorem hasAllowedScheme_of_passes {url : List Char} (hpasses : hasForbiddenScheme url = false)
    (hplain : ¬DisguisesScheme url) : HasAllowedScheme (url.flatMap cleanChar) := by
  intro scheme rest h hne hscheme
  obtain ⟨before, after, rfl, hbefore, rfl⟩ := exists_of_cleaned h hscheme
  by_cases hlisted : String.ofList (lowerAscii (before.filter isSchemeChar)) ∈ allowedSchemes
  · exact hlisted
  exfalso
  by_cases hdropped : ∃ c ∈ before, isDropped c = true
  · exact hplain ⟨before, after, rfl, hbefore, hdropped, hne, hlisted⟩
  · have hall : ∀ c ∈ before, isSchemeChar c = true := fun c hc =>
      (hbefore c hc).resolve_right fun hd => hdropped ⟨c, hc, hd⟩
    rw [List.filter_eq_self.mpr hall] at hne hlisted
    rw [hasForbiddenScheme_append (colon_not_mem hbefore), List.all_eq_true.mpr hall,
      List.contains_eq_mem, decide_eq_false hlisted, List.isEmpty_eq_false_iff.mpr hne] at hpasses
    cases hpasses

/-- **A cleaned address** has an allowed scheme, if any, unless the text disguises
    a scheme; and it is harmless in an attribute whatever the text. -/
theorem cleanUrl_allowed_iff (s : String) :
    let cleaned := (cleanUrl s).toList
    (HasAllowedScheme cleaned ↔ ¬DisguisesScheme (trim s.toList)) ∧
      (∀ c ∈ cleaned, isSpacing c = false ∧ c ∉ ['"', '\'', '<', '>', '\\']) ∧
      ∀ a b, cleaned = a ++ '&' :: b →
        ['#', '0', '3', '8', ';'] <+: b ∨ ['#', '0', '3', '9', ';'] <+: b := by
  intro cleaned
  have hcleaned : cleaned = _ := toList_cleanUrl s
  rw [hcleaned]
  generalize trim s.toList = url
  refine ⟨⟨fun hallowed hdisguise => ?_, fun hplain => ?_⟩, ?_, ?_⟩
  · obtain ⟨hpasses, hforbidden⟩ := hdisguise.passes
    rw [hpasses, if_neg Bool.false_ne_true] at hallowed
    exact hforbidden hallowed
  · split
    · -- nothing is left of a text with a forbidden scheme
      intro scheme rest h
      exact absurd h.symm (by simp)
    · rename_i hpasses
      exact hasAllowedScheme_of_passes (Bool.eq_false_iff.mpr hpasses) hplain
  · intro c hc
    split at hc
    · cases hc
    · by_cases hand : c = '&'
      · subst hand
        exact ⟨by decide, by decide⟩
      · exact harmless_of_isKept (isKept_of_mem_cleaned hc hand)
  · intro a b h
    split at h
    · exact absurd h.symm (by simp)
    · exact ampersand_cleaned h

/-- **A disguise is enough**: an angle bracket inside the scheme is dropped once
    the scheme has passed. -/
theorem not_hasAllowedScheme_disguised :
    (cleanUrl "java<script:alert(1)").toList = "javascript:alert(1)".toList ∧
      ¬HasAllowedScheme (cleanUrl "java<script:alert(1)").toList := by
  have hcleaned : (cleanUrl "java<script:alert(1)").toList =
      "javascript".toList ++ ':' :: "alert(1)".toList := by decide +kernel
  refine ⟨hcleaned, fun hallowed => ?_⟩
  have hscheme := List.all_eq_true.mp (by decide : "javascript".toList.all isSchemeChar = true)
  exact absurd (hallowed _ _ hcleaned (by decide) hscheme) (by decide +kernel)

end PageLoom.Html
