import PageLoom.Calendar.Instant

/-!
# Date patterns — writing an instant by format letters

    Each letter of a pattern stands for one part of the date or time, for
    instance `Y` for the year and `F` for the name of the month.  A
    backslash makes the next character stand for itself, and so do all
    characters that are not format letters.
-/

namespace PageLoom.Pattern

/-- The decimal text of an integer. -/
def integer (n : Int) : List Char :=
  (toString n).toList

/-- The first three letters of a name. -/
def short (name : String) : List Char :=
  name.toList.take 3

/-- The ending of an ordinal number: `st`, `nd`, `rd` or `th`. -/
def ordinalSuffix (day : Nat) : List Char :=
  if 11 ≤ day % 100 && day % 100 ≤ 13 then ['t', 'h']
  else
    match day % 10 with
    | 1 => ['s', 't']
    | 2 => ['n', 'd']
    | 3 => ['r', 'd']
    | _ => ['t', 'h']

/-- The number of days of a month, found from the first day of the next month;
    31 where the next month is beyond the supported years. -/
def monthLength (year : Int) (month : Nat) : Nat :=
  if month = 12 && year = Date.lastYear then 31 else Date.daysInMonth year month

/-- The name of the instant's weekday. -/
def weekdayName (t : Instant) : String :=
  (Date.weekdayNames[Date.weekday t.dayNumber]?).getD ""

/-- The name of the instant's month. -/
def monthName (t : Instant) : String :=
  (Date.monthNames[t.date.month - 1]?).getD ""

/-- The hour on a dial of twelve. -/
def dialHour (t : Instant) : Nat :=
  if t.hour % 12 = 0 then 12 else t.hour % 12

/-- The time of day as `hh:mm:ss`. -/
def clock (t : Instant) : List Char :=
  padded 2 t.hour ++ ':' :: padded 2 t.minute ++ ':' :: padded 2 t.second

/-- What a character of the pattern stands for. -/
def letter (t : Instant) (c : Char) : List Char :=
  let d := t.date
  match c with
  | 'd' => padded 2 d.day
  | 'D' => short (weekdayName t)
  | 'j' => Nat.toDigits 10 d.day
  | 'l' => (weekdayName t).toList
  | 'N' => Nat.toDigits 10 (Date.weekday t.dayNumber + 1)
  | 'S' => ordinalSuffix d.day
  | 'w' => Nat.toDigits 10 ((Date.weekday t.dayNumber + 1) % 7)
  | 'z' => Nat.toDigits 10 d.ordinal
  | 'W' => padded 2 (Date.week t.dayNumber).2
  | 'F' => (monthName t).toList
  | 'm' => padded 2 d.month
  | 'M' => short (monthName t)
  | 'n' => Nat.toDigits 10 d.month
  | 't' => Nat.toDigits 10 (monthLength d.year d.month)
  | 'L' => if Date.isLeapYear d.year then ['1'] else ['0']
  | 'o' => integer (Date.week t.dayNumber).1
  | 'Y' => integer d.year
  | 'y' => padded 2 (d.year % 100).toNat
  | 'a' => if t.hour < 12 then ['a', 'm'] else ['p', 'm']
  | 'A' => if t.hour < 12 then ['A', 'M'] else ['P', 'M']
  | 'g' => Nat.toDigits 10 (dialHour t)
  | 'G' => Nat.toDigits 10 t.hour
  | 'h' => padded 2 (dialHour t)
  | 'H' => padded 2 t.hour
  | 'i' => padded 2 t.minute
  | 's' => padded 2 t.second
  | 'u' => padded 6 (t.nanos / 1000)
  | 'v' => padded 3 (t.nanos / 1000000)
  | 'e' => ['U', 'T', 'C']
  | 'T' => ['U', 'T', 'C']
  | 'P' => ['+', '0', '0', ':', '0', '0']
  | 'O' => ['+', '0', '0', '0', '0']
  | 'Z' => ['0']
  | 'I' => ['0']
  | 'c' =>
      paddedYear d.year ++ '-' :: padded 2 d.month ++ '-' :: padded 2 d.day ++ 'T' :: clock t
        ++ ['+', '0', '0', ':', '0', '0']
  | 'r' =>
      short (weekdayName t) ++ [',', ' '] ++ padded 2 d.day ++ ' ' :: short (monthName t)
        ++ ' ' :: paddedYear d.year ++ ' ' :: clock t ++ [' ', '+', '0', '0', '0', '0']
  | 'U' => integer t.seconds
  | other => [other]

/-- The text of a pattern. -/
def write (t : Instant) : List Char → List Char
  | [] => []
  | ['\\'] => []
  | '\\' :: c :: rest => c :: write t rest
  | c :: rest => letter t c ++ write t rest

/-- **Formatting**: the text of an instant under a pattern. -/
def format (t : Instant) (pattern : String) : String :=
  String.ofList (write t pattern.toList)

end PageLoom.Pattern
