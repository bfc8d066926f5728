import PageLoom.Css.Quoting
import PageLoom.Text.Blank

/-!
# Minification — dropping white space that carries no meaning

    Comments go, runs of white space shrink to one space, spaces around
    `{ } : ; , > + ~` go, and so does a semicolon right before a closing
    brace.  String literals are copied.  Two spaces matter and stay: those
    around a `+` inside parentheses (a sum), and the one before a colon that
    starts a pseudo-class in a selector.
-/

namespace PageLoom.Css

open Text

/-- Where minification stands. -/
structure Minifying where
  /-- the text written so far, last character first -/
  written : List Char
  quoting : Quoting
  /-- white space has been read and not yet written -/
  pendingSpace : Bool
  /-- the last character written is punctuation that needs no space -/
  afterPunctuation : Bool
  /-- open parentheses -/
  parens : Nat

namespace Minifying

/-- Nothing read yet. -/
def start : Minifying := ⟨[], .code, false, false, 0⟩

/-- A pending space written, unless nothing or only punctuation stands before
    it. -/
def flush (m : Minifying) : Minifying :=
  if m.pendingSpace && !m.afterPunctuation && !m.written.isEmpty then
    { m with written := ' ' :: m.written, pendingSpace := false }
  else { m with pendingSpace := false }

/-- A character written after any pending space. -/
def put (m : Minifying) (c : Char) : Minifying :=
  { m.flush with written := c :: m.flush.written, afterPunctuation := false }

/-- A punctuation character that swallows the spaces around it; a closing
    brace swallows a semicolon too. -/
def putTight (m : Minifying) (c : Char) : Minifying :=
  let written :=
    match m.written with
    | ';' :: rest => if c = '}' then rest else m.written
    | _ => m.written
  { m with written := c :: written, pendingSpace := false, afterPunctuation := true }

end Minifying

/-- Characters around which spaces carry no meaning. -/
def isPunctuation (c : Char) : Bool :=
  c == '{' || c == '}' || c == ':' || c == ';' || c == ',' || c == '>' || c == '+' || c == '~'

/-- Whether the next brace or semicolon outside strings is an opening brace,
    so that what stands before it is a selector or a prelude. -/
def startsBlock (quoting : Quoting) : List Char → Bool
  | [] => false
  | c :: cs =>
      if quoting = .code && c = '{' then true
      else if quoting = .code && (c = ';' || c = '}') then false
      else startsBlock (quoting.next c) cs

/-- What a character outside strings does; `cs` is the text after it. -/
def minifyCode (m : Minifying) (c : Char) (cs : List Char) : Minifying :=
  if isQuote c then { m.put c with quoting := .inside c }
  else if isSpacing c then { m with pendingSpace := true }
  else if isPunctuation c then
    if (c = '+' && 0 < m.parens)
        || (c = ':' && m.pendingSpace && m.parens = 0 && startsBlock .code cs) then m.put c
    else m.putTight c
  else if c = '(' then { m.put c with parens := m.parens + 1 }
  else if c = ')' then { m.put c with parens := m.parens - 1 }
  else m.put c

/-- The text written for the rest of a stylesheet, last character first. -/
def minifyFrom (m : Minifying) : List Char → List Char
  | [] => m.written
  | c :: cs =>
      if m.quoting = .code then minifyFrom (minifyCode m c cs) cs
      else minifyFrom { m with written := c :: m.written, quoting := m.quoting.next c } cs

/-- The minified text of a stylesheet. -/
def minifyChars (css : List Char) : List Char :=
  trim (minifyFrom .start (stripComments css)).reverse

/-- **Minification**. -/
def minify (css : String) : String :=
  String.ofList (minifyChars css.toList)

end PageLoom.Css
