import PageLoom.Proofs.Text.Cut
import PageLoom.Proofs.Text.Trim
import PageLoom.Shortcode.Span

/-!
# Written openers — what the reader takes for an opener

    An opener is written between brackets: a tag, attributes that begin with
    white space, and a slash if it closes itself (`Opener.text`).  What can
    be written this way is told by the characters: a tag is made of its own
    characters, no attributes hold a closing bracket, and attributes that end
    with a slash are those of an opener that closes itself
    (`Opener.WellFormed`).

    The reader takes exactly the written openers for openers
    (`opener?_eq_some_iff`), so a text starts with at most one
    (`Opener.WellFormed.unique`).
-/

namespace PageLoom.Shortcode

open Text

/-- The slash of an opener that closes itself. -/
def Opener.slash (opener : Opener) : List Char :=
  if opener.closesItself then ['/'] else []

/-- **An opener as it is written.** -/
def Opener.text (opener : Opener) : List Char :=
  '[' :: (opener.tag ++ (opener.attributes ++ opener.slash ++ [']']))

/-- **Well-formed openers**: those that can be written. -/
structure Opener.WellFormed (opener : Opener) : Prop where
  tag_ne_nil : opener.tag ≠ []
  tag_chars : ∀ c ∈ opener.tag, isNameChar c = true
  attributes_start : ∀ c, opener.attributes.head? = some c → isBlank c = true
  attributes_bracket : ']' ∉ opener.attributes
  /-- a slash at the end closes the opener -/
  attributes_slash : opener.closesItself = false → opener.attributes.getLast? ≠ some '/'

/-! ## The cuts -/

/-- **The slash** is taken off where there is one. -/
theorem splitSlash_eq_iff {between attributes : List Char} {closes : Bool} :
    splitSlash between = (attributes, closes) ↔
      between = attributes ++ (if closes then ['/'] else []) ∧
        (closes = false → attributes.getLast? ≠ some '/') := by
  rw [splitSlash]
  by_cases h : between.getLast? = some '/'
  · rw [if_pos h, Prod.mk.injEq]
    obtain ⟨init, rfl⟩ := List.getLast?_eq_some_iff.mp h
    rw [List.dropLast_concat]
    cases closes with
    | true => simp [eq_comm]
    | false =>
        constructor
        · rintro ⟨-, hcloses⟩
          cases hcloses
        · rintro ⟨hsame, hslash⟩
          rw [if_neg Bool.false_ne_true, List.append_nil] at hsame
          exact absurd (hsame ▸ h) (hslash rfl)
  · rw [if_neg h, Prod.mk.injEq]
    cases closes with
    | true =>
        constructor
        · rintro ⟨-, hcloses⟩
          cases hcloses
        · rintro ⟨rfl, -⟩
          exact absurd (List.getLast?_concat) h
    | false =>
        constructor
        · rintro ⟨rfl, -⟩
          exact ⟨(List.append_nil _).symm, fun _ => h⟩
        · rintro ⟨rfl, -⟩
          exact ⟨List.append_nil _, rfl⟩

/-- Brackets and slashes belong to no name, and white space does not. -/
theorem not_isNameChar_of_isBlank {c : Char} (h : isBlank c = true) : isNameChar c = false := by
  have hunderscore : c ≠ '_' := ne_of_isBlank h (by decide)
  have hhyphen : c ≠ '-' := ne_of_isBlank h (by decide)
  simp [isNameChar, isAlphanum_of_isBlank h, hunderscore, hhyphen]

/-- **A tag ends** where the first character is that is none of its own. -/
theorem Opener.WellFormed.tag_ends {opener : Opener} (h : opener.WellFormed) (rest : List Char) :
    ∃ c cs, opener.attributes ++ opener.slash ++ ']' :: rest = c :: cs ∧ isNameChar c = false := by
  cases hattributes : opener.attributes with
  | nil =>
      rw [Opener.slash]
      split
      · exact ⟨'/', ']' :: rest, rfl, by decide⟩
      · exact ⟨']', rest, rfl, by decide⟩
  | cons c cs =>
      refine ⟨c, cs ++ opener.slash ++ ']' :: rest, rfl, ?_⟩
      refine not_isNameChar_of_isBlank (h.attributes_start c ?_)
      rw [hattributes]
      rfl

theorem Opener.WellFormed.bracket {opener : Opener} (h : opener.WellFormed) :
    ']' ∉ opener.attributes ++ opener.slash := by
  intro hmem
  rcases List.mem_append.mp hmem with hmem | hmem
  · exact h.attributes_bracket hmem
  · rw [Opener.slash] at hmem
    split at hmem
    · simp at hmem
    · cases hmem

/-- A written opener is read. -/
theorem Opener.WellFormed.read {opener : Opener} (h : opener.WellFormed) (rest : List Char) :
    opener? (opener.text ++ rest) = some (opener, rest) := by
  have htext : opener.text ++ rest =
      '[' :: (opener.tag ++ (opener.attributes ++ opener.slash ++ ']' :: rest)) := by
    simp [Opener.text]
  obtain ⟨c, cs, hrest, hc⟩ := h.tag_ends rest
  have htake : (opener.tag ++ (c :: cs)).takeWhile isNameChar = opener.tag := by
    rw [List.takeWhile_append_of_pos h.tag_chars, List.takeWhile_cons_of_neg (by simp [hc]),
      List.append_nil]
  have hdrop : (opener.tag ++ (c :: cs)).dropWhile isNameChar = c :: cs := by
    rw [List.dropWhile_append_of_pos h.tag_chars, List.dropWhile_cons_of_neg (by simp [hc])]
  have hcut : cutAtChar ']' (c :: cs) = some (opener.attributes ++ opener.slash, rest) :=
    cutAtChar_eq_some_iff.mpr ⟨hrest.symm, h.bracket⟩
  have hslash : splitSlash (opener.attributes ++ opener.slash) =
      (opener.attributes, opener.closesItself) :=
    splitSlash_eq_iff.mpr ⟨rfl, h.attributes_slash⟩
  have hempty : opener.tag.isEmpty = false := by simp [h.tag_ne_nil]
  rw [htext, hrest, opener?]
  simp only [htake, hdrop, hcut, hslash, hempty]
  obtain ⟨tag, attributes, closes⟩ := opener
  cases attributes with
  | nil => rfl
  | cons d ds => simp [h.attributes_start d rfl]

/-- What is read as an opener is a written one. -/
theorem of_opener? {cs rest : List Char} {opener : Opener}
    (h : opener? cs = some (opener, rest)) : cs = opener.text ++ rest ∧ opener.WellFormed := by
  rw [opener?.eq_def] at h
  split at h
  · rename_i cs
    dsimp only at h
    split at h
    · cases h
    rename_i htag
    split at h
    · cases h
    rename_i between after hcut
    obtain ⟨hdrop, hbracket⟩ := cutAtChar_eq_some_iff.mp hcut
    obtain ⟨attributes, closes, hslash⟩ :
        ∃ attributes closes, splitSlash between = (attributes, closes) := ⟨_, _, rfl⟩
    obtain ⟨hbetween, hcloses⟩ := splitSlash_eq_iff.mp hslash
    -- the attributes are empty or begin with white space
    have hread : (∀ c, attributes.head? = some c → isBlank c = true) ∧
        (⟨cs.takeWhile isNameChar, attributes, closes⟩, after) = (opener, rest) := by
      rw [hslash] at h
      cases attributes with
      | nil => exact ⟨by simp, Option.some.inj h⟩
      | cons c attributes =>
          obtain ⟨hc, hsame⟩ := Option.ite_none_right_eq_some.mp h
          refine ⟨?_, Option.some.inj hsame⟩
          intro d hd
          rw [← Option.some.inj hd]
          exact hc
    obtain ⟨hstart, hsame⟩ := hread
    cases hsame
    constructor
    · have hcs := List.takeWhile_append_dropWhile (p := isNameChar) (l := cs)
      rw [hdrop, hbetween] at hcs
      simp only [Opener.text, Opener.slash, List.cons_append, List.append_assoc, List.nil_append]
      simpa using hcs.symm
    · exact {
        tag_ne_nil := by simpa using htag
        tag_chars := List.all_eq_true.mp List.all_takeWhile
        attributes_start := hstart
        attributes_bracket := fun hmem => hbracket (hbetween ▸ List.mem_append_left _ hmem)
        attributes_slash := hcloses }
  · cases h

/-- **The reader takes exactly the written openers for openers.** -/
theorem opener?_eq_some_iff {cs rest : List Char} {opener : Opener} :
    opener? cs = some (opener, rest) ↔ cs = opener.text ++ rest ∧ opener.WellFormed := by
  constructor
  · exact of_opener?
  · rintro ⟨rfl, h⟩
    exact h.read rest

/-- **A text starts with at most one opener.** -/
theorem Opener.WellFormed.unique {a b : Opener} (ha : a.WellFormed) (hb : b.WellFormed)
    {x y : List Char} (h : a.text ++ x = b.text ++ y) : a = b ∧ x = y := by
  have hread := ha.read x
  rw [h, hb.read y] at hread
  exact Prod.mk.inj (Option.some.inj hread.symm)

/-! ## Spans -/

variable {isKnown : List Char → Bool}

/-- Where no opener begins a character is text. -/
theorem spans_of_none {c : Char} {cs : List Char} (h : opener? (c :: cs) = none) :
    spans isKnown (c :: cs) = .text [c] :: spans isKnown cs := by
  rw [spans]
  split
  · rfl
  · rename_i hsome
    rw [h] at hsome
    cases hsome

/-- An unknown opener is text. -/
theorem spans_of_unknown {cs rest : List Char} {opener : Opener}
    (h : opener? cs = some (opener, rest)) (hunknown : isKnown opener.tag = false) :
    spans isKnown cs = .text opener.text :: spans isKnown rest := by
  have hcs := (of_opener? h).1
  obtain ⟨c, lead, rfl⟩ := exists_of_opener? h
  rw [spans]
  split
  · rename_i hnone
    rw [h] at hnone
    cases hnone
  · rename_i found after hsome
    obtain ⟨rfl, rfl⟩ := Prod.mk.inj (Option.some.inj (h.symm.trans hsome))
    have hlength : (c :: (lead ++ rest)).length - rest.length = opener.text.length := by
      rw [hcs, List.length_append, Nat.add_sub_cancel]
    rw [if_neg (by simp [hunknown]), hlength, hcs, List.take_left]

end PageLoom.Shortcode
