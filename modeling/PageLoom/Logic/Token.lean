import PageLoom.Json.Basic
import PageLoom.Text.Blank
import PageLoom.Text.Digits
import PageLoom.Text.Search

/-!
# Tokens of template tags

    Inside a tag stand names, strings in either quote, numbers and marks,
    with white space between them.  A tag ends at its closing braces, which
    may carry a minus sign; inside a string they do not count.

    The marks are those of comparisons, attributes, items, filters, lists and
    signs.  Left out are the marks of arithmetic (`+ * / // % **`), of joined
    texts (`~`), of maps (`{ : }`) and of assignment (`=`), and names beyond
    ASCII: a tag that holds one of them cannot be read.
-/

namespace PageLoom.Logic

open Text

/-- A mark of the template language. -/
inductive Mark
  | equal
  | unequal
  | less
  | lessOrEqual
  | greater
  | greaterOrEqual
  | minus
  | dot
  | comma
  | pipe
  | openRound
  | closeRound
  | openSquare
  | closeSquare
  deriving DecidableEq, Repr

/-- A token inside a tag. -/
inductive Token
  | name (s : String)
  | string (s : String)
  | number (n : Number)
  | mark (m : Mark)
  deriving DecidableEq, Repr

/-- Characters that a name starts with. -/
def isNameStart (c : Char) : Bool :=
  c.isAlpha || c == '_'

/-- Characters of a name. -/
def isNameChar (c : Char) : Bool :=
  c.isAlphanum || c == '_'

/-- The mark of two characters. -/
def doubleMark? (a b : Char) : Option Mark :=
  if b == '=' then
    if a == '=' then some .equal
    else if a == '!' then some .unequal
    else if a == '<' then some .lessOrEqual
    else if a == '>' then some .greaterOrEqual
    else none
  else none

/-- The mark of one character. -/
def singleMark? (c : Char) : Option Mark :=
  if c == '<' then some .less
  else if c == '>' then some .greater
  else if c == '-' then some .minus
  else if c == '.' then some .dot
  else if c == ',' then some .comma
  else if c == '|' then some .pipe
  else if c == '(' then some .openRound
  else if c == ')' then some .closeRound
  else if c == '[' then some .openSquare
  else if c == ']' then some .closeSquare
  else none

/-- The mark at the start of a text, and what follows it. -/
def mark? (cs : List Char) : Option (Mark × List Char) :=
  match cs with
  | [] => none
  | [c] => (singleMark? c).map (·, [])
  | c :: d :: rest =>
      match doubleMark? c d with
      | some m => some (m, rest)
      | none => (singleMark? c).map (·, d :: rest)

/-- The value of four hexadecimal digits at the start of a text. -/
def unit? : List Char → Option (Nat × List Char)
  | a :: b :: c :: d :: rest => do
      let n ← hexadecimal? [a, b, c, d]
      return (n, rest)
  | _ => none

/-- The character after a backslash and `u`, and what follows it; a character
    beyond the basic plane takes two escapes. -/
def escapedUnit? (cs : List Char) : Option (Char × List Char) := do
  let (high, rest) ← unit? cs
  if 0xD800 ≤ high && high < 0xDC00 then
    match rest with
    | '\\' :: 'u' :: rest =>
        let (low, rest) ← unit? rest
        if 0xDC00 ≤ low && low < 0xE000 then
          return (Char.ofNat (0x10000 + (high - 0xD800) * 0x400 + (low - 0xDC00)), rest)
        else none
    | _ => none
  else if 0xDC00 ≤ high && high < 0xE000 then none
  else return (Char.ofNat high, rest)

/-- The character after a backslash that is written with one letter. -/
def escapedLetter? (c : Char) : Option Char :=
  if c == '"' || c == '\\' || c == '/' || c == '\'' then some c
  else if c == 'b' then some '\x08'
  else if c == 'f' then some '\x0c'
  else if c == 'n' then some '\n'
  else if c == 'r' then some '\r'
  else if c == 't' then some '\t'
  else none

/-- The characters of a string up to its closing quote, and what follows it.
    `fuel` is at least the length of the text. -/
def stringFrom (quote : Char) : Nat → List Char → Option (List Char × List Char)
  | 0, _ => none
  | _ + 1, [] => none
  | fuel + 1, c :: cs =>
      if c == quote then some ([], cs)
      else if c == '\\' then
        match cs with
        | [] => none
        | 'u' :: cs => do
            let (x, rest) ← escapedUnit? cs
            let (body, rest) ← stringFrom quote fuel rest
            return (x :: body, rest)
        | d :: cs => do
            let x ← escapedLetter? d
            let (body, rest) ← stringFrom quote fuel cs
            return (x :: body, rest)
      else (stringFrom quote fuel cs).map fun (body, rest) => (c :: body, rest)

/-- The exponent at the start of a text, if it has the form of one, and what
    follows it. -/
def exponent? (cs : List Char) : Option (Int × List Char) :=
  let (negative, cs) :=
    match cs with
    | '-' :: rest => (true, rest)
    | '+' :: rest => (false, rest)
    | _ => (false, cs)
  (decimal? (cs.takeWhile Char.isDigit)).map fun n =>
    (if negative then -(n : Int) else n, cs.dropWhile Char.isDigit)

/-- The number at the start of a text that starts with a digit, and what
    follows it: a real number if it has a point or an exponent, otherwise an
    integer of at most 128 bits. -/
def number? (cs : List Char) : Option (Number × List Char) := do
  let whole := cs.takeWhile Char.isDigit
  let rest := cs.dropWhile Char.isDigit
  let (fraction, hasPoint, rest) :=
    match rest with
    | '.' :: rest => (rest.takeWhile Char.isDigit, true, rest.dropWhile Char.isDigit)
    | _ => ([], false, rest)
  let (power, hasExponent, rest) ←
    match rest with
    | c :: tail =>
        if c == 'e' || c == 'E' then
          (exponent? tail).map fun (power, rest) => (power, true, rest)
        else some (0, false, c :: tail)
    | [] => some (0, false, [])
  let digits ← decimal? (whole ++ fraction)
  if hasPoint || hasExponent then
    let x ← Binary64.ofDecimal false digits (power - fraction.length)
    return (.real x, rest)
  else if digits < Nat.pow 2 128 then return (.int digits, rest)
  else none

/-- The token at the start of a text, and what follows it. -/
def token? (cs : List Char) : Option (Token × List Char) :=
  match cs with
  | [] => none
  | c :: tail =>
      if isNameStart c then
        some (.name (String.ofList (cs.takeWhile isNameChar)), cs.dropWhile isNameChar)
      else if c.isDigit then (number? cs).map fun (n, rest) => (.number n, rest)
      else if c == '"' || c == '\'' then
        (stringFrom c cs.length tail).map fun (body, rest) => (.string (String.ofList body), rest)
      else (mark? cs).map fun (m, rest) => (.mark m, rest)

/-- What follows the closing braces at the start of a text, and whether they
    take away the white space after them.  A block may also close with a plus
    sign. -/
def afterClosing (isBlock : Bool) (cs : List Char) : Option (Bool × List Char) :=
  match isBlock, cs with
  | false, '}' :: '}' :: rest => some (false, rest)
  | false, '-' :: '}' :: '}' :: rest => some (true, rest)
  | true, '%' :: '}' :: rest => some (false, rest)
  | true, '-' :: '%' :: '}' :: rest => some (true, rest)
  | true, '+' :: '%' :: '}' :: rest => some (false, rest)
  | _, _ => none

/-- **The tokens of a tag**, whether its end takes away white space, and what
    follows it.  `fuel` is more than the length of the text. -/
def tagTokens (isBlock : Bool) : Nat → List Char → Option (List Token × Bool × List Char)
  | 0, _ => none
  | fuel + 1, cs =>
      let cs := cs.dropWhile isSpacing
      match afterClosing isBlock cs with
      | some (trims, rest) => some ([], trims, rest)
      | none => do
          let (first, rest) ← token? cs
          let (tokens, trims, rest) ← tagTokens isBlock fuel rest
          return (first :: tokens, trims, rest)

end PageLoom.Logic
