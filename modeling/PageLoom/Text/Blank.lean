/-!
# White space — what trimming and word splitting skip

    Two notions of white space run through the library.  Text from people
    (titles, settings, dates) is trimmed and split at the characters with
    the Unicode property White_Space; the stylesheet language knows only
    five ASCII characters.  Both are given here, with the trimming and
    splitting built on the first.
-/

namespace PageLoom.Text

/-- The characters with the Unicode property White_Space. -/
def isBlank (c : Char) : Bool :=
  let n := c.toNat
  (0x09 ≤ n && n ≤ 0x0D) || n == 0x20 || n == 0x85 || n == 0xA0 || n == 0x1680
    || (0x2000 ≤ n && n ≤ 0x200A) || n == 0x2028 || n == 0x2029 || n == 0x202F
    || n == 0x205F || n == 0x3000

/-- White space of the stylesheet language: space, tab, line feed, form feed
    and carriage return. -/
def isSpacing (c : Char) : Bool :=
  c == ' ' || c == '\t' || c == '\n' || c == '\x0c' || c == '\r'

/-- Stylesheet white space is white space. -/
theorem isBlank_of_isSpacing {c : Char} (h : isSpacing c = true) : isBlank c = true := by
  simp only [isSpacing, Bool.or_eq_true, beq_iff_eq] at h
  rcases h with (((rfl | rfl) | rfl) | rfl) | rfl <;> decide

/-- The text without its leading white space. -/
def trimStart (cs : List Char) : List Char :=
  cs.dropWhile isBlank

/-- The text without its trailing white space. -/
def trimEnd : List Char → List Char
  | [] => []
  | c :: cs =>
      match trimEnd cs with
      | [] => if isBlank c then [] else [c]
      | kept => c :: kept

/-- The text without white space at either end. -/
def trim (cs : List Char) : List Char :=
  trimEnd (trimStart cs)

/-- **Words**: the maximal runs of characters that are not white space.
    `word` holds the run being read, last character first. -/
def wordsFrom (word : List Char) : List Char → List (List Char)
  | [] => if word.isEmpty then [] else [word.reverse]
  | c :: cs =>
      if isBlank c then
        if word.isEmpty then wordsFrom [] cs else word.reverse :: wordsFrom [] cs
      else wordsFrom (c :: word) cs

/-- The words of a text, in order. -/
def words (cs : List Char) : List (List Char) :=
  wordsFrom [] cs

/-- Whether a text is empty or white space throughout. -/
def isBlankText (s : String) : Bool :=
  s.toList.all isBlank

/-- A string without white space at either end. -/
def trimmed (s : String) : String :=
  String.ofList (trim s.toList)

/-- A string without trailing white space. -/
def trimmedEnd (s : String) : String :=
  String.ofList (trimEnd s.toList)

/-- Trimming the end drops characters only. -/
theorem length_trimEnd_le (cs : List Char) : (trimEnd cs).length ≤ cs.length := by
  induction cs with
  | nil => exact Nat.le_refl _
  | cons c cs ih =>
      rw [trimEnd]
      split
      · split <;> simp
      · rename_i h
        simp only [List.length_cons]
        omega

/-- Trimming the start drops characters only. -/
theorem length_trimStart_le (cs : List Char) : (trimStart cs).length ≤ cs.length :=
  (List.dropWhile_sublist _).length_le

/-- Trimming drops characters only. -/
theorem length_trim_le (cs : List Char) : (trim cs).length ≤ cs.length :=
  Nat.le_trans (length_trimEnd_le _) (length_trimStart_le _)

end PageLoom.Text
