import PageLoom.Text.Blank
import PageLoom.Text.Search
import PageLoom.Text.WordTable

/-!
# Tags — the plain text of markup

    `stripTags` removes script and style elements with all they hold, then
    every tag, and trims what is left.  An element that never closes is not
    removed as an element; its tags still are.  Names match in either case,
    and the long s counts as an s, as Unicode case folding has it.
-/

namespace PageLoom.Html

open Text

/-- Whether a character is the small letter `x` in some case. -/
def isLetter (x c : Char) : Bool :=
  c.toLower == x || (x == 's' && c == 'ſ')

/-- What follows a name at the start of a text. -/
def afterName : List Char → List Char → Option (List Char)
  | [], cs => some cs
  | _ :: _, [] => none
  | x :: name, c :: cs => if isLetter x c then afterName name cs else none

/-- What follows the closing tag of an element at the start of a text. -/
def afterClosing (name : List Char) : List Char → Option (List Char)
  | '<' :: '/' :: cs =>
      match afterName name cs with
      | none => none
      | some rest =>
          match trimStart rest with
          | '>' :: rest => some rest
          | _ => none
  | _ => none

/-- What follows the first closing tag of an element. -/
def afterFirstClosing (name : List Char) : List Char → Option (List Char)
  | [] => none
  | c :: cs =>
      match afterClosing name (c :: cs) with
      | some rest => some rest
      | none => afterFirstClosing name cs

/-- Whether no word goes on at the start of a text. -/
def endsWord : List Char → Bool
  | [] => true
  | c :: _ => !isWordChar c

/-- What follows an element of a name that opens at the start of a text. -/
def afterElement (name cs : List Char) : Option (List Char) :=
  match cs with
  | '<' :: cs =>
      match afterName name cs with
      | none => none
      | some rest => if endsWord rest then afterFirstClosing name rest else none
  | _ => none

/-- What follows a script or style element at the start of a text. -/
def afterCode (cs : List Char) : Option (List Char) :=
  match afterElement ['s', 'c', 'r', 'i', 'p', 't'] cs with
  | some rest => some rest
  | none => afterElement ['s', 't', 'y', 'l', 'e'] cs

theorem length_of_afterName {name cs rest : List Char} (h : afterName name cs = some rest) :
    rest.length ≤ cs.length := by
  induction name generalizing cs with
  | nil =>
      simp only [afterName, Option.some.injEq] at h
      simp [h]
  | cons x name ih =>
      cases cs with
      | nil => simp [afterName] at h
      | cons c cs =>
          rw [afterName] at h
          split at h
          · have := ih h
            simp only [List.length_cons]
            omega
          · simp at h

theorem length_of_afterClosing {name cs rest : List Char}
    (h : afterClosing name cs = some rest) : rest.length ≤ cs.length := by
  rw [afterClosing.eq_def] at h
  split at h
  · split at h
    · simp at h
    · rename_i tail hname
      split at h
      · rename_i body htrim
        simp only [Option.some.injEq] at h
        subst h
        have h1 := length_of_afterName hname
        have h2 := length_trimStart_le tail
        rw [htrim] at h2
        simp only [List.length_cons] at h2 ⊢
        omega
      · simp at h
  · simp at h

theorem length_of_afterFirstClosing {name cs rest : List Char}
    (h : afterFirstClosing name cs = some rest) : rest.length ≤ cs.length := by
  induction cs with
  | nil => simp [afterFirstClosing] at h
  | cons c cs ih =>
      rw [afterFirstClosing] at h
      split at h
      · rename_i tail hclose
        simp only [Option.some.injEq] at h
        subst h
        exact length_of_afterClosing hclose
      · have := ih h
        simp only [List.length_cons]
        omega

theorem length_of_afterElement {name cs rest : List Char}
    (h : afterElement name cs = some rest) : rest.length < cs.length := by
  rw [afterElement.eq_def] at h
  split at h
  · split at h
    · simp at h
    · rename_i tail hname
      split at h
      · have h1 := length_of_afterName hname
        have h2 := length_of_afterFirstClosing h
        simp only [List.length_cons]
        omega
      · simp at h
  · simp at h

/-- What follows an element is shorter than the text it starts. -/
theorem length_of_afterCode {cs rest : List Char} (h : afterCode cs = some rest) :
    rest.length < cs.length := by
  rw [afterCode] at h
  split at h
  · rename_i tail helement
    simp only [Option.some.injEq] at h
    subst h
    exact length_of_afterElement helement
  · exact length_of_afterElement h

/-- The text without its script and style elements. -/
def dropCode : List Char → List Char
  | [] => []
  | c :: cs =>
      match _element : afterCode (c :: cs) with
      | some rest => dropCode rest
      | none => c :: dropCode cs
termination_by cs => cs.length
decreasing_by
  · exact length_of_afterCode _element
  · simp

/-- The text without its tags.  A `<` without a later `>` opens none. -/
def dropTags : List Char → List Char
  | [] => []
  | c :: cs =>
      if c = '<' then
        match _tag : cutAtChar '>' cs with
        | some (_, rest) => dropTags rest
        | none => c :: cs
      else c :: dropTags cs
termination_by cs => cs.length
decreasing_by
  · rw [(cutAtChar_eq_some_iff.mp _tag).1]
    simp only [List.length_cons, List.length_append]
    omega
  · simp

/-- **Plain text**: the text without elements of code and without tags,
    trimmed. -/
def stripTags (cs : List Char) : List Char :=
  trim (dropTags (dropCode cs))

/-- What stands for words left out. -/
def ellipsis : List Char :=
  ['&', 'h', 'e', 'l', 'l', 'i', 'p', ';']

/-- The first words of a text's plain text, with an ellipsis when there are
    more. -/
def firstWords (count : Nat) (text : String) : String :=
  let all := words (stripTags text.toList)
  let kept := [' '].intercalate (all.take count)
  String.ofList (if all.length > count then kept ++ ellipsis else kept)

end PageLoom.Html
