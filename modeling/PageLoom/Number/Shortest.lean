import PageLoom.Number.Binary64

/-!
# Shortest decimals — the fewest digits that read back to a double

    `shortest` finds the decimal with the fewest digits among the reals that
    round to a given double: for one digit, two digits and so on it tests
    the two neighbours of the value on that decimal grid against the
    rounding interval, in exact arithmetic.  `DecimalStyle` then records how a
    particular text format lays the digits out.
-/

namespace PageLoom

/-- A positive decimal: `digits · 10^power`. -/
structure Decimal where
  digits : Nat
  power : Int
  deriving DecidableEq, Repr

namespace Decimal

/-- Trailing zeros moved from the digits into the power; `fuel` bounds the
    number of zeros. -/
def stripZeros (fuel : Nat) (d : Decimal) : Decimal :=
  match fuel with
  | 0 => d
  | fuel + 1 =>
      if d.digits % 10 == 0 && d.digits != 0 then
        stripZeros fuel ⟨d.digits / 10, d.power + 1⟩
      else d

/-- The order of `a · 10^i` and `n · 2^j`. -/
def compareScaled (a : Nat) (i : Int) (n : Nat) (j : Int) : Ordering :=
  compare (a * Nat.pow 10 i.toNat * Nat.pow 2 (-j).toNat)
    (n * Nat.pow 2 j.toNat * Nat.pow 10 (-i).toNat)

/-- Whether a decimal lies among the reals that round to `m · 2^e`.  The ends
    of the interval are the midpoints to the two neighbours; they belong to
    it when `m` is even. -/
def readsBack (m : Nat) (e : Int) (d : Decimal) : Bool :=
  let narrow := m == Nat.pow 2 52 && e > Binary64.leastExponent
  let low := if narrow then 4 * m - 1 else 4 * m - 2
  let high := 4 * m + 2
  let belowHigh := compareScaled d.digits d.power high (e - 2)
  let aboveLow := compareScaled d.digits d.power low (e - 2)
  let closed := m % 2 == 0
  (aboveLow == .gt || (closed && aboveLow == .eq))
    && (belowHigh == .lt || (closed && belowHigh == .eq))

/-- The number of decimal places left of the point: the least `k` with
    `m · 2^e < 10^k`, searched upward from `k` for `fuel` steps. -/
def scaleFrom (m : Nat) (e : Int) : Nat → Int → Int
  | 0, k => k
  | fuel + 1, k => if compareScaled 1 k m e == .gt then k else scaleFrom m e fuel (k + 1)

/-- A starting point for the scale that is never too large. -/
def scaleGuess (m : Nat) (e : Int) : Int :=
  (((m.log2 : Int) + e) * 30103) / 100000 - 1

/-- The best decimal for `m · 2^e` with digits down to `10^unit`, if one reads
    back: of the two neighbours on that grid the closer one, the even one
    when they are equally close. -/
def nearestOnGrid (m : Nat) (e unit : Int) : Option Decimal :=
  let num := m * Nat.pow 2 e.toNat * Nat.pow 10 (-unit).toNat
  let den := Nat.pow 2 (-e).toNat * Nat.pow 10 unit.toNat
  let low : Decimal := ⟨num / den, unit⟩
  let high : Decimal := ⟨num / den + 1, unit⟩
  match readsBack m e low, readsBack m e high with
  | true, true => some ⟨Binary64.roundHalfEven num den, unit⟩
  | true, false => some low
  | false, true => some high
  | false, false => none

/-- The first grid with a decimal that reads back, from `10^unit` downward. -/
def searchGrids (m : Nat) (e : Int) : Nat → Int → Option Decimal
  | 0, _ => none
  | fuel + 1, unit =>
      match nearestOnGrid m e unit with
      | some d => some d
      | none => searchGrids m e fuel (unit - 1)

/-- The exact value of `m · 2^e` as a decimal. -/
def exact (m : Nat) (e : Int) : Decimal :=
  ⟨m * Nat.pow 2 e.toNat * Nat.pow 5 (-e).toNat, -((-e).toNat : Int)⟩

/-- **Shortest decimal**: the decimal with the fewest digits that reads back
    to the positive value `m · 2^e`, without trailing zeros.  Seventeen
    digits always suffice; the exact value stands in otherwise. -/
def shortest (m : Nat) (e : Int) : Decimal :=
  let scale := scaleFrom m e 8 (scaleGuess m e)
  stripZeros 400 ((searchGrids m e 17 (scale - 1)).getD (exact m e))

end Decimal

/-- How a text format lays out a decimal with the value `0.d₁d₂… · 10^point`:
    `point` between the two bounds is written positionally, anything else
    with an exponent. -/
structure DecimalStyle where
  /-- the least `point` written positionally -/
  leastPoint : Int
  /-- the greatest `point` written positionally -/
  greatestPoint : Int
  /-- whether a positive exponent carries a plus sign -/
  plusSign : Bool

/-- A decimal laid out in a notation; a positional integer keeps `.0`. -/
def DecimalStyle.layOut (style : DecimalStyle) (d : Decimal) : List Char :=
  let digits := Nat.toDigits 10 d.digits
  let point : Int := d.power + digits.length
  if style.leastPoint ≤ point && point ≤ style.greatestPoint then
    if point ≤ 0 then
      ['0', '.'] ++ List.replicate (-point).toNat '0' ++ digits
    else if d.power ≥ 0 then
      digits ++ List.replicate d.power.toNat '0' ++ ['.', '0']
    else
      digits.take point.toNat ++ ['.'] ++ digits.drop point.toNat
  else
    let exponent := point - 1
    let sign := if exponent < 0 then ['-'] else if style.plusSign then ['+'] else []
    let tail := digits.drop 1
    let mantissa := digits.take 1 ++ (if tail.isEmpty then [] else '.' :: tail)
    mantissa ++ ['e'] ++ sign ++ Nat.toDigits 10 exponent.natAbs

/-- The text of a double in a notation; zero is `0.0`. -/
def DecimalStyle.write (style : DecimalStyle) (x : Binary64) : String :=
  let sign := if x.negative then ['-'] else []
  let body :=
    if x.isZero then ['0', '.', '0']
    else style.layOut (Decimal.shortest x.significand x.exponent)
  String.ofList (sign ++ body)

end PageLoom
