/-!
# Civil dates — the Gregorian calendar in both directions

    Dates of the Gregorian calendar, extended to all years, and their count
    of days from 1 January 1970.  `Date.dayNumber` counts the days of a
    date; `Date.ofDayNumber` finds the date again by estimating the year
    from the mean length of 400 years, which is off by one year at most.
-/

namespace PageLoom

/-- A date of the Gregorian calendar; year 0 is the year before year 1. -/
structure Date where
  year : Int
  month : Nat
  day : Nat
  deriving DecidableEq, Repr

namespace Date

/-- Whether a year has 366 days. -/
def isLeapYear (year : Int) : Bool :=
  year % 4 == 0 && (year % 100 != 0 || year % 400 == 0)

/-- The days of each month in order. -/
def monthLengths (year : Int) : List Nat :=
  [31, if isLeapYear year then 29 else 28, 31, 30, 31, 30, 31, 31, 30, 31, 30, 31]

/-- The number of days of a month; none for a month outside 1 to 12. -/
def daysInMonth (year : Int) (month : Nat) : Nat :=
  if month = 0 then 0 else ((monthLengths year)[month - 1]?).getD 0

/-- The number of days from 1 January of year 1 to 1 January of a year. -/
def daysBeforeYear (year : Int) : Int :=
  let y := year - 1
  365 * y + y / 4 - y / 100 + y / 400

/-- The number of days of the year before a month. -/
def daysBeforeMonth (year : Int) (month : Nat) : Nat :=
  ((monthLengths year).take (month - 1)).foldl (· + ·) 0

/-- The days from 1 January of year 1 to 1 January 1970. -/
def epochDays : Int := 719162

/-- The number of days of the year before the date. -/
def ordinal (d : Date) : Nat :=
  daysBeforeMonth d.year d.month + (d.day - 1)

/-- **Day number**: the days from 1 January 1970 to the date. -/
def dayNumber (d : Date) : Int :=
  daysBeforeYear d.year - epochDays + d.ordinal

/-- The year in which the day `days` after 1 January of year 1 falls. -/
def yearOfDays (days : Int) : Int :=
  let guess := days * 400 / 146097 + 1
  if days < daysBeforeYear guess then guess - 1
  else if daysBeforeYear (guess + 1) ≤ days then guess + 1
  else guess

/-- The month and day at an ordinal, counting months from `month` on. -/
def monthAndDay (month : Nat) : List Nat → Nat → Nat × Nat
  | [], ordinal => (month, ordinal + 1)
  | length :: rest, ordinal =>
      if ordinal < length then (month, ordinal + 1)
      else monthAndDay (month + 1) rest (ordinal - length)

/-- **The date of a day number**. -/
def ofDayNumber (n : Int) : Date :=
  let days := n + epochDays
  let year := yearOfDays days
  let (month, day) := monthAndDay 1 (monthLengths year) (days - daysBeforeYear year).toNat
  ⟨year, month, day⟩

/-- The earliest and the latest year of an instant. -/
def firstYear : Int := -262143
def lastYear : Int := 262142

/-- Whether the parts name a day of the calendar, in the supported years. -/
def isValid (d : Date) : Bool :=
  firstYear ≤ d.year && d.year ≤ lastYear
    && 1 ≤ d.day && d.day ≤ daysInMonth d.year d.month

/-- The weekday of a day number, Monday being 0. -/
def weekday (n : Int) : Nat :=
  ((n + 3) % 7).toNat

/-- The year and number of the week of a day: weeks start on Monday and belong
    to the year of their Thursday. -/
def week (n : Int) : Int × Nat :=
  let thursday := ofDayNumber (n - weekday n + 3)
  (thursday.year, thursday.ordinal / 7 + 1)

/-- English names of the weekdays from Monday. -/
def weekdayNames : List String :=
  ["Monday", "Tuesday", "Wednesday", "Thursday", "Friday", "Saturday", "Sunday"]

/-- English names of the months. -/
def monthNames : List String :=
  ["January", "February", "March", "April", "May", "June", "July", "August", "September",
   "October", "November", "December"]

end Date

end PageLoom
