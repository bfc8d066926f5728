/-!
# Cursors — a place in a YAML text

    A cursor is the rest of a text with the line and column where it
    starts.  Five characters and the pair of carriage return and line feed
    break lines; all but the line and paragraph separators count as a line
    feed.
-/

namespace PageLoom.Yaml

/-- The rest of a text, its line, its column, and how many characters stand
    before it. -/
structure Cursor where
  rest : List Char
  line : Nat := 0
  column : Nat := 0
  index : Nat := 0

/-- Space or tab. -/
def isBlank (c : Char) : Bool :=
  c == ' ' || c == '\t'

/-- Characters that break a line. -/
def isBreak (c : Char) : Bool :=
  c == '\n' || c == '\r' || c == '\u0085' || c == '\u2028' || c == '\u2029'

/-- Whether a text starts with white space or a line break, or is at its
    end. -/
def startsGap : List Char → Bool
  | [] => true
  | c :: _ => isBlank c || isBreak c

/-- Whether a text starts with a line break, or is at its end. -/
def startsBreak : List Char → Bool
  | [] => true
  | c :: _ => isBreak c

namespace Cursor

/-- The next character. -/
def peek (cur : Cursor) : Option Char :=
  cur.rest.head?

/-- The cursor after a number of characters that break no line. -/
def skip (cur : Cursor) (n : Nat) : Cursor :=
  { cur with rest := cur.rest.drop n, column := cur.column + n, index := cur.index + n }

/-- The cursor at the start of the next line, `n` characters on. -/
def nextLine (cur : Cursor) (n : Nat) : Cursor :=
  ⟨cur.rest.drop n, cur.line + 1, 0, cur.index + n⟩

/-- What the line break at the cursor reads as, and the cursor after it. -/
def takeBreak (cur : Cursor) : List Char × Cursor :=
  match cur.rest with
  | '\r' :: '\n' :: _ => (['\n'], cur.nextLine 2)
  | '\u2028' :: _ => (['\u2028'], cur.nextLine 1)
  | '\u2029' :: _ => (['\u2029'], cur.nextLine 1)
  | c :: _ => if isBreak c then (['\n'], cur.nextLine 1) else ([], cur)
  | [] => ([], cur)

/-- The cursor after the characters that satisfy a test, none of which breaks a
    line. -/
def skipWhile (test : Char → Bool) (cur : Cursor) : Cursor :=
  cur.skip (cur.rest.takeWhile test).length

/-- Whether three equal marks stand alone at the start of a line. -/
def atMark (x : Char) (cur : Cursor) : Bool :=
  cur.column == 0 && cur.rest.take 3 == [x, x, x] && startsGap (cur.rest.drop 3)

/-- Whether a document starts or ends at the cursor. -/
def atDocumentMark (cur : Cursor) : Bool :=
  cur.atMark '-' || cur.atMark '.'

end Cursor

/-- Characters that a text may hold. -/
def isAllowed (c : Char) : Bool :=
  let n := c.toNat
  n == 0x09 || n == 0x0A || n == 0x0D || (0x20 ≤ n && n ≤ 0x7E) || n == 0x85
    || (0xA0 ≤ n && n ≤ 0xD7FF) || (0xE000 ≤ n && n ≤ 0xFFFD) || 0x10000 ≤ n

/-- The cursor at the start of a text, a byte order mark left out. -/
def Cursor.ofText (text : String) : Cursor :=
  match text.toList with
  | '\uFEFF' :: rest => { rest }
  | rest => { rest }

end PageLoom.Yaml
