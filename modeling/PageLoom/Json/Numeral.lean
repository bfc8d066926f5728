import PageLoom.Json.Basic
import PageLoom.Text.Digits

/-!
# JSON numerals — the value of a written number

    A numeral without fraction and exponent that fits 64 bits is an integer.
    Any other numeral is a double.  Its digits are gathered into a
    significand of at most 64 bits, later digits being dropped, and the
    power of ten is applied to that significand by one multiplication or
    division of doubles; a power beyond `±308` is applied in steps.  So the
    double is the nearest one for numerals of moderate length, and may be a
    neighbour of it for long ones.
-/

namespace PageLoom.Json.Numeral

/-- A numeral taken apart: sign, digits before and after the point, and the
    exponent if one is written. -/
structure Parts where
  negative : Bool
  whole : List Char
  fraction : Option (List Char)
  exponent : Option Int

/-- The exponent after its letter: digits with an optional sign. -/
def exponent? (cs : List Char) : Option Int :=
  let (negative, digits) :=
    match cs with
    | '-' :: rest => (true, rest)
    | '+' :: rest => (false, rest)
    | _ => (false, cs)
  (Text.decimal? digits).map fun n => if negative then -n else n

/-- What follows the whole part: an optional fraction, then an optional
    exponent. -/
def suffix? (cs : List Char) : Option (Option (List Char) × Option Int) := do
  let (fraction, rest) ←
    match cs with
    | '.' :: rest =>
        let digits := rest.takeWhile Char.isDigit
        if digits.isEmpty then none else some (some digits, rest.dropWhile Char.isDigit)
    | _ => some (none, cs)
  match rest with
  | [] => return (fraction, none)
  | c :: rest =>
      if c == 'e' || c == 'E' then return (fraction, some (← exponent? rest)) else none

/-- The parts of a well-formed numeral.  The whole part has no leading zero
    unless it is zero. -/
def parts? (cs : List Char) : Option Parts := do
  let (negative, cs) :=
    match cs with
    | '-' :: rest => (true, rest)
    | _ => (false, cs)
  let whole := cs.takeWhile Char.isDigit
  if whole.isEmpty || (whole.length > 1 && whole.head? == some '0') then none
  else
    let (fraction, exponent) ← suffix? (cs.dropWhile Char.isDigit)
    return ⟨negative, whole, fraction, exponent⟩

/-- Digits appended to a significand while they fit; the rest is returned. -/
def absorb (significand : Nat) : List Char → Nat × List Char
  | [] => (significand, [])
  | c :: cs =>
      let next := significand * 10 + Text.digitValue c
      if next ≤ Text.greatestWord then absorb next cs else (significand, c :: cs)

/-- The double nearest to a power of ten up to `10^308`. -/
def powerOfTen (n : Nat) : Option Binary64 :=
  Binary64.ofDecimal false 1 n

/-- A double scaled by a power of ten; none when it leaves the finite range.
    Each step below `10^-308` divides once, and `fuel` steps reach zero. -/
def scale (fuel : Nat) (x : Binary64) (power : Int) : Option Binary64 :=
  if 0 ≤ power then
    if x.isZero then some x
    else if power > 308 then none
    else do x.mul (← powerOfTen power.toNat)
  else if -308 ≤ power then do x.div (← powerOfTen (-power).toNat)
  else
    match fuel with
    | 0 => some (Binary64.zero x.negative)
    | fuel + 1 =>
        if x.isZero then some x
        else do scale fuel (← x.div (← powerOfTen 308)) (power + 308)

/-- The double of a numeral. -/
def real? (p : Parts) : Option Binary64 := do
  let (significand, dropped) := absorb 0 p.whole
  let (significand, unread) := absorb significand (p.fraction.getD [])
  let taken := (p.fraction.getD []).length - unread.length
  let power : Int := (dropped.length : Int) - taken + p.exponent.getD 0
  let x ← scale 4 (← Binary64.ofRatio false significand 1) power
  return if p.negative then x.neg else x

/-- **Numerals**: the number that a numeral denotes; none when it is malformed
    or beyond the finite range. -/
def read (cs : List Char) : Option Number := do
  let p ← parts? cs
  let n := Text.decimalValue p.whole
  if p.fraction.isNone && p.exponent.isNone && n ≤ Text.greatestWord then
    if !p.negative then return .int n
    else if n != 0 && n ≤ Nat.pow 2 63 then return .int (-n)
    else return .real (← Binary64.ofRatio true n 1)
  else return .real (← real? p)

end PageLoom.Json.Numeral
