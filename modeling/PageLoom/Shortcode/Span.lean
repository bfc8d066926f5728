import PageLoom.Shortcode.Attributes

/-!
# Spans — shortcodes and the text between them

    An opener is `[tag attributes]` or `[tag attributes/]`.  A known opener
    that does not close itself encloses the text up to the first `[/tag]`
    after it, if there is one.  `spans` reads a text from the left, passing
    over everything a known shortcode covers; unknown openers are text.
-/

namespace PageLoom.Shortcode

open Text

/-- The opening bracket of a shortcode with what belongs to it. -/
structure Opener where
  tag : List Char
  /-- the text of the attributes -/
  attributes : List Char
  closesItself : Bool
  deriving DecidableEq, Repr

/-- A shortcode: its tag, the text of its attributes, and what it encloses. -/
structure Call where
  tag : List Char
  attributes : List Char
  inner : Option (List Char)
  deriving DecidableEq, Repr

/-- A part of a text. -/
inductive Span
  | text (cs : List Char)
  | call (c : Call)
  deriving DecidableEq, Repr

/-- The attributes up to a closing bracket, without the slash before it, and
    whether there was one. -/
def splitSlash (cs : List Char) : List Char × Bool :=
  if cs.getLast? = some '/' then (cs.dropLast, true) else (cs, false)

/-- The opener at the start of a text, and what follows it. -/
def opener? (cs : List Char) : Option (Opener × List Char) :=
  match cs with
  | '[' :: cs =>
      let tag := cs.takeWhile isNameChar
      if tag.isEmpty then none
      else
        match cutAtChar ']' (cs.dropWhile isNameChar) with
        | none => none
        | some (between, rest) =>
            let (attributes, closesItself) := splitSlash between
            match attributes with
            | [] => some (⟨tag, [], closesItself⟩, rest)
            | c :: _ => if isBlank c then some (⟨tag, attributes, closesItself⟩, rest) else none
  | _ => none

/-- The closing form of a tag. -/
def closingOf (tag : List Char) : List Char :=
  '[' :: '/' :: tag ++ [']']

/-- An opener takes its brackets and what is between them off the text. -/
theorem exists_of_opener? {cs rest : List Char} {opener : Opener}
    (h : opener? cs = some (opener, rest)) : ∃ c lead, cs = c :: (lead ++ rest) := by
  rw [opener?.eq_def] at h
  split at h
  · rename_i cs
    have key : ∀ between, cutAtChar ']' (cs.dropWhile isNameChar) = some (between, rest) →
        ∃ c lead, '[' :: cs = c :: (lead ++ rest) := by
      intro between hcut
      refine ⟨'[', cs.takeWhile isNameChar ++ (between ++ [']']), ?_⟩
      have hdrop := (cutAtChar_eq_some_iff.mp hcut).1
      rw [List.append_assoc, List.append_assoc, List.singleton_append, ← hdrop,
        List.takeWhile_append_dropWhile]
    dsimp only at h
    split at h
    · simp at h
    · split at h
      · simp at h
      · rename_i between tail hcut
        split at h
        · simp only [Option.some.injEq, Prod.mk.injEq] at h
          exact key between (h.2 ▸ hcut)
        · split at h
          · simp only [Option.some.injEq, Prod.mk.injEq] at h
            exact key between (h.2 ▸ hcut)
          · simp at h
  · simp at h

/-- What follows an opener is shorter than the text it starts. -/
theorem length_of_opener? {cs rest : List Char} {opener : Opener}
    (h : opener? cs = some (opener, rest)) : rest.length < cs.length := by
  obtain ⟨c, lead, rfl⟩ := exists_of_opener? h
  simp only [List.length_cons, List.length_append]
  omega

/-- What an opener encloses in the text `rest`, and what follows its closing
    form. -/
def enclosed? (opener : Opener) (rest : List Char) : Option (List Char × List Char) :=
  if opener.closesItself then none else cutAt (closingOf opener.tag) rest

/-- The call that an opener makes before the text `rest`, and what follows
    it. -/
def complete (opener : Opener) (rest : List Char) : Call × List Char :=
  match enclosed? opener rest with
  | some (inner, rest) => (⟨opener.tag, opener.attributes, some inner⟩, rest)
  | none => (⟨opener.tag, opener.attributes, none⟩, rest)

/-- A call leaves no more than what followed its opener. -/
theorem length_complete_le (opener : Opener) (rest : List Char) :
    (complete opener rest).2.length ≤ rest.length := by
  rw [complete]
  split
  · rename_i inner tail h
    rw [enclosed?] at h
    split at h
    · simp at h
    · have := length_of_cutAt h
      dsimp only
      omega
  · exact Nat.le_refl _

/-- **The spans of a text** in which the tags `isKnown` are shortcodes. -/
def spans (isKnown : List Char → Bool) : List Char → List Span
  | [] => []
  | c :: cs =>
      match _opener : opener? (c :: cs) with
      | none => .text [c] :: spans isKnown cs
      | some (opener, rest) =>
          if isKnown opener.tag then
            .call (complete opener rest).1 :: spans isKnown (complete opener rest).2
          else .text ((c :: cs).take ((c :: cs).length - rest.length)) :: spans isKnown rest
termination_by cs => cs.length
decreasing_by
  · simp
  · exact Nat.lt_of_le_of_lt (length_complete_le _ _) (length_of_opener? _opener)
  · exact length_of_opener? _opener

end PageLoom.Shortcode
