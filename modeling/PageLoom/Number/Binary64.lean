/-!
# Binary64 — finite double-precision numbers, exactly

    A finite double is a sign, a significand `m` and an exponent `e` with
    magnitude `m · 2^e`, in the one normal form the format allows: either
    `2^52 ≤ m < 2^53`, or `m < 2^52` at the least exponent `-1074`.  All
    arithmetic is done on exact ratios of naturals and rounded once, to the
    nearest value and on a tie to the even significand.
-/

namespace PageLoom

/-- A finite double-precision number, `± significand · 2^exponent`. -/
structure Binary64 where
  negative : Bool
  significand : Nat
  exponent : Int
  deriving DecidableEq, Repr

namespace Binary64

/-- The least exponent of a finite double. -/
def leastExponent : Int := -1074

/-- The greatest exponent of a finite double. -/
def greatestExponent : Int := 971

/-- Zero, with a sign. -/
def zero (negative : Bool) : Binary64 :=
  ⟨negative, 0, leastExponent⟩

/-- Whether the number is zero, of either sign. -/
def isZero (x : Binary64) : Bool :=
  x.significand == 0

/-- The quotient of two naturals rounded to the nearest natural, a tie to the
    even one. -/
def roundHalfEven (num den : Nat) : Nat :=
  let q := num / den
  let r := num % den
  if 2 * r < den then q
  else if den < 2 * r then q + 1
  else if q % 2 == 0 then q else q + 1

/-- `num / (den · 2^e)` as a ratio of naturals. -/
def scaleDown (num den : Nat) (e : Int) : Nat × Nat :=
  (num * Nat.pow 2 (-e).toNat, den * Nat.pow 2 e.toNat)

/-- The exponent at which the ratio `num / den` has a significand of 53 bits,
    or the least one. -/
def exponentFor (num den : Nat) : Int :=
  let guess := (num.log2 : Int) - (den.log2 : Int) - 53
  let (n, d) := scaleDown num den guess
  let e := if n / d < Nat.pow 2 53 then guess else guess + 1
  max e leastExponent

/-- **Rounding**: the double nearest to `± num / den`; none beyond the finite
    range. -/
def ofRatio (negative : Bool) (num den : Nat) : Option Binary64 :=
  if num = 0 then some (zero negative)
  else
    let e := exponentFor num den
    let (n, d) := scaleDown num den e
    let m := roundHalfEven n d
    let (m, e) := if m = Nat.pow 2 53 then (Nat.pow 2 52, e + 1) else (m, e)
    if e > greatestExponent then none
    else if m = 0 then some (zero negative)
    else some ⟨negative, m, e⟩

/-- The magnitude as a ratio of naturals. -/
def magnitude (x : Binary64) : Nat × Nat :=
  (x.significand * Nat.pow 2 x.exponent.toNat, Nat.pow 2 (-x.exponent).toNat)

/-- The double nearest to the product. -/
def mul (x y : Binary64) : Option Binary64 :=
  let (a, b) := x.magnitude
  let (c, d) := y.magnitude
  ofRatio (x.negative != y.negative) (a * c) (b * d)

/-- The double nearest to the quotient by a number other than zero. -/
def div (x y : Binary64) : Option Binary64 :=
  let (a, b) := x.magnitude
  let (c, d) := y.magnitude
  if c = 0 then none else ofRatio (x.negative != y.negative) (a * d) (b * c)

/-- The double nearest to `± digits · 10^power`.  A power far outside the
    range is settled without computing it: more than 400 places up is
    infinite and down is zero, whatever digits an input can hold. -/
def ofDecimal (negative : Bool) (digits : Nat) (power : Int) : Option Binary64 :=
  let places : Int := (digits.log2 : Int) / 3 + 1
  if digits = 0 then some (zero negative)
  else if power > 400 then none
  else if power + places < -400 then some (zero negative)
  else if power < 0 then ofRatio negative digits (Nat.pow 10 (-power).toNat)
  else ofRatio negative (digits * Nat.pow 10 power.toNat) 1

/-- Whether the number is an integer. -/
def isIntegral (x : Binary64) : Bool :=
  let (a, b) := x.magnitude
  a % b == 0

/-- The integer part, toward zero. -/
def truncate (x : Binary64) : Int :=
  let (a, b) := x.magnitude
  if x.negative then -((a / b : Nat) : Int) else ((a / b : Nat) : Int)

/-- The order of the values; the two zeros are equal. -/
def compareTo (x y : Binary64) : Ordering :=
  let (a, b) := x.magnitude
  let (c, d) := y.magnitude
  let left : Int := if x.negative then -((a * d : Nat) : Int) else ((a * d : Nat) : Int)
  let right : Int := if y.negative then -((c * b : Nat) : Int) else ((c * b : Nat) : Int)
  compare left right

/-- The number with the opposite sign. -/
def neg (x : Binary64) : Binary64 :=
  { x with negative := !x.negative }

end Binary64

end PageLoom
