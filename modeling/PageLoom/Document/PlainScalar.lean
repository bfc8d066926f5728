import PageLoom.Json.Basic
import PageLoom.Text.Search

/-!
# Plain scalars — what an unquoted word of a document means

    An unquoted scalar is null, a boolean, a number or a text, decided by
    its spelling alone.  Integers may be decimal, or hexadecimal, octal or
    binary after `0x`, `0o`, `0b`; a decimal with a superfluous leading zero
    is a text.  A reader that wants one kind of value asks for it directly;
    `resolve` serves readers that take any value.
-/

namespace PageLoom.PlainScalar

/-- The spellings of null. -/
def isNullWord (s : String) : Bool :=
  s == "null" || s == "Null" || s == "NULL" || s == "~"

/-- The boolean that a spelling denotes. -/
def bool? (s : String) : Option Bool :=
  if s == "true" || s == "True" || s == "TRUE" then some true
  else if s == "false" || s == "False" || s == "FALSE" then some false
  else none

/-- The value of a digit in bases up to sixteen. -/
def digitValue? (base : Nat) (c : Char) : Option Nat :=
  let n := c.toNat
  let value :=
    if 48 ≤ n && n ≤ 57 then n - 48
    else if 97 ≤ n && n ≤ 102 then n - 87
    else if 65 ≤ n && n ≤ 70 then n - 55
    else base
  if value < base then some value else none

/-- The value of a non-empty row of digits. -/
def digits? (base : Nat) (cs : List Char) : Option Nat :=
  if cs.isEmpty then none
  else cs.foldlM (fun n c => (digitValue? base c).map (n * base + ·)) 0

/-- The text without one leading plus sign. -/
def withoutPlus : List Char → List Char
  | '+' :: cs => cs
  | cs => cs

/-- Whether a text starts with a sign. -/
def startsSigned : List Char → Bool
  | c :: _ => c == '+' || c == '-'
  | [] => false

/-- Decimal digits with a superfluous leading zero, which make a text. -/
def hasSpareZero (cs : List Char) : Bool :=
  let digits := if startsSigned cs then cs.drop 1 else cs
  digits.length > 1 && digits.head? == some '0' && digits.all Char.isDigit

/-- A value no greater than a bound. -/
def upTo (bound : Nat) : Option Nat → Option Nat
  | some n => if n ≤ bound then some n else none
  | none => none

/-- A value after one of the base marks, no greater than a bound. -/
def marked? (bound : Nat) (cs : List Char) : Option Nat :=
  match cs with
  | '0' :: 'x' :: rest => upTo bound (digits? 16 rest)
  | '0' :: 'o' :: rest => upTo bound (digits? 8 rest)
  | '0' :: 'b' :: rest => upTo bound (digits? 2 rest)
  | _ => none

/-- An integer without minus sign, no greater than a bound. -/
def unsigned? (bound : Nat) (cs : List Char) : Option Nat :=
  let body := withoutPlus cs
  match marked? bound body with
  | some n => some n
  | none =>
      if startsSigned body || hasSpareZero cs then none
      else upTo bound (digits? 10 body)

/-- An integer with minus sign, its magnitude no greater than a bound. -/
def negative? (bound : Nat) (cs : List Char) : Option Int :=
  match cs with
  | '-' :: body =>
      match marked? bound body with
      | some n => some (-(n : Int))
      | none =>
          if startsSigned body || hasSpareZero cs then none
          else (upTo bound (digits? 10 body)).map fun n => -(n : Int)
  | _ => none

/-- A natural number of 64 bits. -/
def natural? (s : String) : Option Nat :=
  unsigned? (Nat.pow 2 64 - 1) s.toList

/-- A signed integer of 64 bits. -/
def integer? (s : String) : Option Int :=
  match unsigned? (Nat.pow 2 63 - 1) s.toList with
  | some n => some n
  | none => negative? (Nat.pow 2 63) s.toList

/-- What a spelling of a real number denotes. -/
inductive Real
  /-- a finite number -/
  | finite (x : Binary64)
  /-- an infinity or not a number -/
  | special

/-- A finite decimal number: digits with an optional point and an optional
    exponent, rounded to the nearest double. -/
def decimal? (cs : List Char) : Option Binary64 := do
  let (negative, body) :=
    match cs with
    | '-' :: rest => (true, rest)
    | _ => (false, cs)
  let whole := body.takeWhile Char.isDigit
  let rest := body.dropWhile Char.isDigit
  let (fraction, rest) :=
    match rest with
    | '.' :: rest => (rest.takeWhile Char.isDigit, rest.dropWhile Char.isDigit)
    | _ => ([], rest)
  let power : Int ←
    match rest with
    | [] => some 0
    | c :: rest =>
        if c == 'e' || c == 'E' then
          match rest with
          | '-' :: rest => (digits? 10 rest).map fun n => -(n : Int)
          | '+' :: rest => (digits? 10 rest).map fun n => (n : Int)
          | _ => (digits? 10 rest).map fun n => (n : Int)
        else none
  let significand ← digits? 10 (whole ++ fraction)
  Binary64.ofDecimal negative significand (power - fraction.length)

/-- A real number, an infinity or not-a-number. -/
def real? (s : String) : Option Real :=
  let cs := s.toList
  let body := withoutPlus cs
  let signedTwice := body.length < cs.length && startsSigned body
  let bodyText := String.ofList body
  if signedTwice then none
  else if bodyText == ".inf" || bodyText == ".Inf" || bodyText == ".INF"
      || s == "-.inf" || s == "-.Inf" || s == "-.INF"
      || s == ".nan" || s == ".NaN" || s == ".NAN" then some .special
  else (decimal? body).map .finite

/-- **Resolution**: the value of a plain scalar.  An integer of more than 64
    bits but at most 128 has none; a special real becomes null. -/
def resolve (s : String) : Option Json :=
  let cs := s.toList
  if cs.isEmpty || isNullWord s then some .null
  else
    match bool? s with
    | some b => some (.bool b)
    | none =>
        match unsigned? (Nat.pow 2 64 - 1) cs, negative? (Nat.pow 2 63) cs with
        | some n, _ => some (.number (.int n))
        | none, some n => some (.number (.int n))
        | none, none =>
            if (unsigned? (Nat.pow 2 128 - 1) cs).isSome
                || (negative? (Nat.pow 2 127) cs).isSome then none
            else if hasSpareZero cs then some (.string s)
            else
              match real? s with
              | some (.finite x) => some (.number (.real x))
              | some .special => some .null
              | none => some (.string s)

end PageLoom.PlainScalar
