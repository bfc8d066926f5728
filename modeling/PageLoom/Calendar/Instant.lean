import PageLoom.Calendar.Date

/-!
# Instants — points of time in UTC

    An instant is a second counted from 1 January 1970 and a fraction in
    nanoseconds.  A leap second is the second before a full minute with a
    fraction of a whole second or more.
-/

namespace PageLoom

/-- A point of time in UTC.  Fractions of `10^9` and more are leap seconds. -/
structure Instant where
  seconds : Int
  nanos : Nat
  deriving DecidableEq, Repr

instance : Inhabited Instant := ⟨⟨0, 0⟩⟩

namespace Instant

/-- The first and the last second of the supported years. -/
def firstSecond : Int := -8334601228800
def lastSecond : Int := 8210266876799

/-- **The instant of a timestamp**, if it lies in the supported years and its
    fraction is one of a second, or of a leap second at the end of a
    minute. -/
def ofTimestamp? (seconds : Int) (nanos : Nat) : Option Instant :=
  if seconds < firstSecond || lastSecond < seconds then none
  else if nanos < 1000000000 || (nanos < 2000000000 && seconds % 60 == 59) then
    some ⟨seconds, nanos⟩
  else none

/-- The day number of the instant's day. -/
def dayNumber (t : Instant) : Int :=
  t.seconds / 86400

/-- The instant's date. -/
def date (t : Instant) : Date :=
  .ofDayNumber t.dayNumber

/-- The second of the day. -/
def secondOfDay (t : Instant) : Nat :=
  (t.seconds % 86400).toNat

/-- The hour, from 0 to 23. -/
def hour (t : Instant) : Nat :=
  t.secondOfDay / 3600

/-- The minute, from 0 to 59. -/
def minute (t : Instant) : Nat :=
  t.secondOfDay / 60 % 60

/-- The second as shown: 60 in a leap second. -/
def second (t : Instant) : Nat :=
  t.secondOfDay % 60 + t.nanos / 1000000000

end Instant

/-- A number in decimal, with leading zeros up to a width. -/
def padded (width n : Nat) : List Char :=
  let digits := Nat.toDigits 10 n
  List.replicate (width - digits.length) '0' ++ digits

/-- A year in four digits; years outside 0 to 9999 carry a sign. -/
def paddedYear (year : Int) : List Char :=
  if 0 ≤ year && year ≤ 9999 then padded 4 year.toNat
  else (if year < 0 then '-' else '+') :: padded 4 year.natAbs

/-- The fraction of a timestamp: nothing, or three, six or nine digits, as
    many as it needs. -/
def fractionText (nanos : Nat) : List Char :=
  let n := nanos % 1000000000
  if n = 0 then []
  else if n % 1000000 = 0 then '.' :: padded 3 (n / 1000000)
  else if n % 1000 = 0 then '.' :: padded 6 (n / 1000)
  else '.' :: padded 9 n

/-- **Timestamp text**: date, time and `Z`. -/
def Instant.text (t : Instant) : String :=
  let d := t.date
  String.ofList
    (paddedYear d.year ++ '-' :: padded 2 d.month ++ '-' :: padded 2 d.day ++ 'T' ::
      padded 2 t.hour ++ ':' :: padded 2 t.minute ++ ':' :: padded 2 t.second
        ++ fractionText t.nanos ++ ['Z'])

end PageLoom
