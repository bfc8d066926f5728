import PageLoom.Text.Digits

/-!
# Stylesheet tokens — the lexical grammar of stylesheets

    The tokens of the stylesheet language, as far as soundness of a sheet
    depends on them: which tokens open and close brackets, which are
    malformed, and how far every token reaches.  A token is found from its
    first character and the text after it; `scanToken` answers its kind and
    the number of further characters.
-/

namespace PageLoom.Css

/-- The three kinds of brackets. -/
inductive Bracket
  | curly
  | square
  | round
  deriving DecidableEq, Repr

/-- What a token means for the soundness of a sheet.  A function name opens a
    round bracket. -/
inductive TokenKind
  | opens (bracket : Bracket)
  | closes (bracket : Bracket)
  /-- a string broken by a line end, or a malformed `url()` -/
  | malformed
  | other
  deriving DecidableEq, Repr

/-- A token with its text. -/
structure Token where
  kind : TokenKind
  text : List Char

namespace Token

/-! ## Characters -/

/-- Line ends: line feed, carriage return, form feed. -/
def isNewline (c : Char) : Bool :=
  c == '\n' || c == '\r' || c == '\x0c'

/-- White space between tokens. -/
def isSpace (c : Char) : Bool :=
  c == ' ' || c == '\t' || isNewline c

/-- Hexadecimal digits. -/
def isHex (c : Char) : Bool :=
  (Text.hexValue? c).isSome

/-- Characters that start a name. -/
def isNameStart (c : Char) : Bool :=
  c.isAlpha || c == '_' || c == '\x00' || 0x80 ≤ c.toNat

/-- Characters of a name. -/
def isNameChar (c : Char) : Bool :=
  isNameStart c || c.isDigit || c == '-'

/-- Control characters that a bare `url()` must not hold. -/
def isUnprintable (c : Char) : Bool :=
  let n := c.toNat
  (1 ≤ n && n ≤ 8) || n == 0x0B || (0x0E ≤ n && n ≤ 0x1F) || n == 0x7F

/-- Whether a text starts with a line end. -/
def startsNewline : List Char → Bool
  | c :: _ => isNewline c
  | [] => false

/-- Whether a text starts with a digit. -/
def startsDigit : List Char → Bool
  | c :: _ => c.isDigit
  | [] => false

/-- The length of the line end at the start of a text. -/
def newlineLength : List Char → Nat
  | '\r' :: '\n' :: _ => 2
  | c :: _ => if isNewline c then 1 else 0
  | [] => 0

/-- Whether a name starts here. -/
def startsName : List Char → Bool
  | '-' :: c :: cs =>
      isNameStart c || c == '-' || (c == '\\' && !startsNewline cs)
  | '\\' :: cs => !startsNewline cs
  | c :: _ => isNameStart c
  | [] => false

/-! ## Escapes and names -/

/-- The character of a hexadecimal escape; the replacement character where
    there is none. -/
def escapedChar (n : Nat) : Char :=
  if n = 0 || (0xD800 ≤ n && n ≤ 0xDFFF) || 0x10FFFF < n then '\uFFFD' else Char.ofNat n

/-- The escape whose backslash has been read: the character it stands for and
    its length.  Up to six hexadecimal digits may be followed by one white
    space that belongs to them. -/
def escape (cs : List Char) : Char × Nat :=
  let digits := (cs.take 6).takeWhile isHex
  match digits, cs with
  | [], [] => ('\uFFFD', 0)
  | [], c :: _ => (if c == '\x00' then '\uFFFD' else c, 1)
  | _, _ =>
      let rest := cs.drop digits.length
      let space :=
        match rest with
        | c :: _ => if c == ' ' || c == '\t' then 1 else newlineLength rest
        | [] => 0
      (escapedChar ((Text.hexadecimal? digits).getD 0), digits.length + space)

/-- The characters of the name at the start of a text and its length. -/
def name (cs : List Char) : List Char × Nat :=
  match cs with
  | [] => ([], 0)
  | c :: cs =>
      if isNameChar c then
        let (value, length) := name cs
        ((if c == '\x00' then '\uFFFD' else c) :: value, length + 1)
      else if c == '\\' && !startsNewline cs then
        let (d, k) := escape cs
        let (value, length) := name (cs.drop k)
        (d :: value, length + k + 1)
      else ([], 0)
termination_by cs.length

/-! ## Strings, comments, numbers -/

/-- The rest of a string literal: whether it is sound, and its length.  It
    ends with its quote or with the text; a bare line end breaks it. -/
def string (quote : Char) (cs : List Char) : TokenKind × Nat :=
  match cs with
  | [] => (.other, 0)
  | c :: cs =>
      if c == quote then (.other, 1)
      else if isNewline c then (.malformed, 0)
      else
        let skip :=
          if c == '\\' then
            if startsNewline cs then newlineLength cs else if cs.isEmpty then 0 else (escape cs).2
          else 0
        let (kind, length) := string quote (cs.drop skip)
        (kind, length + skip + 1)
termination_by cs.length

/-- The length of a comment after its `/*`. -/
def comment : List Char → Nat
  | [] => 0
  | '*' :: '/' :: _ => 2
  | _ :: cs => comment cs + 1

/-- The number of digits at the start of a text. -/
def digits (cs : List Char) : Nat :=
  (cs.takeWhile Char.isDigit).length

/-- The length of a fraction with its point, if there is one. -/
def fraction : List Char → Nat
  | '.' :: cs => if startsDigit cs then digits cs + 1 else 0
  | _ => 0

/-- The length of an exponent with its letter, if there is one. -/
def exponent : List Char → Nat
  | e :: cs =>
      if e == 'e' || e == 'E' then
        match cs with
        | s :: rest =>
            if s.isDigit then digits cs + 1
            else if (s == '+' || s == '-') && startsDigit rest then digits rest + 2
            else 0
        | [] => 0
      else 0
  | [] => 0

/-- The length of a number without its sign, with its unit or percent sign. -/
def numeric (cs : List Char) : Nat :=
  let n := digits cs
  let n := n + fraction (cs.drop n)
  let n := n + exponent (cs.drop n)
  let rest := cs.drop n
  match rest with
  | '%' :: _ => n + 1
  | _ => if startsName rest then n + (name rest).2 else n

/-- Whether a number starts here, a sign having been read. -/
def startsNumber : List Char → Bool
  | '.' :: cs => startsDigit cs
  | cs => startsDigit cs

/-! ## URLs -/

/-- The end of a bare url after white space: nothing but white space may come
    before the closing bracket. -/
def urlEnd : List Char → TokenKind × Nat
  | [] => (.other, 0)
  | c :: cs =>
      if c == ')' then (.other, 1)
      else if isSpace c then
        let (kind, length) := urlEnd cs
        (kind, length + 1)
      else (.malformed, 1)

/-- The rest of a bare url.  What follows the fault in a malformed one is not
    measured, since the sheet is unsound there. -/
def urlBody (cs : List Char) : TokenKind × Nat :=
  match cs with
  | [] => (.other, 0)
  | c :: cs =>
      if c == ')' then (.other, 1)
      else if isSpace c then
        let (kind, length) := urlEnd cs
        (kind, length + 1)
      else if isUnprintable c || c == '"' || c == '\'' || c == '(' then (.malformed, 1)
      else if c == '\\' && startsNewline cs then (.malformed, 1)
      else
        let skip := if c == '\\' then (escape cs).2 else 0
        let (kind, length) := urlBody (cs.drop skip)
        (kind, length + skip + 1)
termination_by cs.length

/-- What follows `url(`: a bare url, or nothing when a quote shows that it is a
    function. -/
def url (cs : List Char) : TokenKind × Nat :=
  let gap := (cs.takeWhile isSpace).length
  match cs.drop gap with
  | [] => (.other, gap)
  | c :: rest =>
      if c == '"' || c == '\'' then (.opens .round, 0)
      else
        let (kind, length) := urlBody (c :: rest)
        (kind, gap + length)

/-- A name, a function or a url starting with `cs`. -/
def nameLike (cs : List Char) : TokenKind × Nat :=
  let (value, length) := name cs
  match cs.drop length with
  | '(' :: rest =>
      if value.map Char.toLower == ['u', 'r', 'l'] then
        let (kind, more) := url rest
        (kind, length + 1 + more)
      else (.opens .round, length + 1)
  | _ => (.other, length)

/-! ## Tokens -/

/-- One more character when the text goes on with it. -/
def withNext (x : Char) : List Char → TokenKind × Nat
  | c :: _ => (.other, if c = x then 1 else 0)
  | [] => (.other, 0)

/-- The token that starts with a name character or a backslash. -/
def fromName (c : Char) (cs : List Char) : TokenKind × Nat :=
  let (kind, length) := nameLike (c :: cs)
  (kind, length - 1)

/-- **Scanning**: the kind of the token that starts with `c`, and how many of
    the following characters belong to it. -/
def scanToken (c : Char) (cs : List Char) : TokenKind × Nat :=
  if isSpace c then (.other, (cs.takeWhile isSpace).length)
  else if c.isDigit then (.other, numeric (c :: cs) - 1)
  else if isNameStart c then fromName c cs
  else
    match c with
    | '"' => string '"' cs
    | '\'' => string '\'' cs
    | '#' =>
        (.other,
          if startsName cs || startsDigit cs || cs.head? == some '-' then (name cs).2 else 0)
    | '@' => (.other, if startsName cs then (name cs).2 else 0)
    | '(' => (.opens .round, 0)
    | ')' => (.closes .round, 0)
    | '[' => (.opens .square, 0)
    | ']' => (.closes .square, 0)
    | '{' => (.opens .curly, 0)
    | '}' => (.closes .curly, 0)
    | '+' => (.other, if startsNumber cs then numeric cs else 0)
    | '.' => (.other, if startsDigit cs then numeric (c :: cs) - 1 else 0)
    | '-' =>
        if startsNumber cs then (.other, numeric cs)
        else if cs.take 2 == ['-', '>'] then (.other, 2)
        else if startsName (c :: cs) then fromName c cs
        else (.other, 0)
    | '/' => (.other, if cs.head? == some '*' then 1 + comment (cs.drop 1) else 0)
    | '<' => (.other, if cs.take 3 == ['!', '-', '-'] then 3 else 0)
    | '\\' => if startsNewline cs then (.other, 0) else fromName c cs
    | '$' => withNext '=' cs
    | '*' => withNext '=' cs
    | '^' => withNext '=' cs
    | '|' => withNext '=' cs
    | '~' => withNext '=' cs
    | _ => (.other, 0)

end Token

/-- **Tokens**: the tokens of a stylesheet, whose texts follow one another. -/
def tokens (css : List Char) : List Token :=
  match css with
  | [] => []
  | c :: cs =>
      let (kind, more) := Token.scanToken c cs
      ⟨kind, c :: cs.take more⟩ :: tokens (cs.drop more)
termination_by css.length
decreasing_by
  simp only [List.length_drop, List.length_cons]
  omega

end PageLoom.Css
