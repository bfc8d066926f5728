import PageLoom.Proofs.Calendar.Days
import PageLoom.Proofs.Calendar.Parts

/-!
# Written forms — what the date patterns write and who reads it

    The text of each of the patterns `c`, `r`, `U`, `Y-m-d H:i:s` and `Y-m-d` is
    given part by part (`toList_format_internet` and its like), with the numbers
    in the ranges that the calendar and the clock give them.
-/

namespace PageLoom

open Text

/-! ## The parts of an instant -/

namespace Instant

theorem onCalendar_date (t : Instant) : t.date.OnCalendar :=
  (Date.ofDayNumber_spec t.dayNumber).1

theorem dayNumber_date (t : Instant) : t.date.dayNumber = t.dayNumber :=
  Date.dayNumber_ofDayNumber t.dayNumber

theorem month_lt (t : Instant) : t.date.month < 100 :=
  Nat.lt_of_le_of_lt t.onCalendar_date.month_le (by decide)

theorem day_lt (t : Instant) : t.date.day < 100 :=
  Nat.lt_of_le_of_lt (Nat.le_trans t.onCalendar_date.day_le (Date.daysInMonth_le _ _)) (by decide)

/-- The place of the month among the months. -/
theorem month_pred_lt (t : Instant) : t.date.month - 1 < 12 := by
  have hlast := t.onCalendar_date.month_le
  omega

theorem weekday_lt (n : Int) : Date.weekday n < 7 := by
  rw [Date.weekday]
  omega

theorem hour_lt (t : Instant) : t.hour < 24 := by
  rw [hour, secondOfDay]
  omega

theorem minute_lt (t : Instant) : t.minute < 60 :=
  Nat.mod_lt _ (by decide)

/-- The second as shown is below 60 outside leap seconds. -/
theorem second_lt {t : Instant} (h : t.nanos = 0) : t.second < 60 := by
  rw [second, h]
  omega

/-- **The clock tells the second of the day.** -/
theorem seconds_eq {t : Instant} (h : t.nanos = 0) :
    t.seconds = t.dayNumber * 86400 + (t.hour * 3600 + t.minute * 60 + t.second : Nat) := by
  rw [hour, minute, second, secondOfDay, dayNumber, h]
  omega

end Instant

/-! ## Texts -/

namespace Pattern

/-- A date in numbers with dashes, after the digits of its year. -/
def dashed (year : List Char) (d : Date) (rest : List Char) : List Char :=
  year ++ '-' :: (padded 2 d.month ++ '-' :: (padded 2 d.day ++ rest))

/-- The time of day in numbers with colons. -/
def timed (t : Instant) (rest : List Char) : List Char :=
  padded 2 t.hour ++ ':' :: (padded 2 t.minute ++ ':' :: (padded 2 t.second ++ rest))

theorem clock_append (t : Instant) (rest : List Char) : clock t ++ rest = timed t rest := by
  simp only [clock, timed, List.append_assoc, List.cons_append]

/-- What `c` writes. -/
theorem toList_format_internet (t : Instant) :
    (format t "c").toList = dashed (paddedYear t.date.year) t.date
      ('T' :: timed t ['+', '0', '0', ':', '0', '0']) := by
  have hwrite : write t "c".toList = letter t 'c' ++ [] := rfl
  rw [format, String.toList_ofList, hwrite, List.append_nil]
  simp only [letter, dashed, List.append_assoc, List.cons_append, clock_append]

/-- What `r` writes. -/
theorem toList_format_mail (t : Instant) :
    (format t "r").toList = short (weekdayName t) ++ ',' :: ' ' :: (padded 2 t.date.day ++
      ' ' :: (short (monthName t) ++ ' ' :: (paddedYear t.date.year ++
        ' ' :: timed t [' ', '+', '0', '0', '0', '0']))) := by
  have hwrite : write t "r".toList = letter t 'r' ++ [] := rfl
  rw [format, String.toList_ofList, hwrite, List.append_nil]
  simp only [letter, List.append_assoc, List.cons_append, List.nil_append, clock_append]

/-- What `U` writes. -/
theorem toList_format_seconds (t : Instant) : (format t "U").toList = integer t.seconds := by
  have hwrite : write t "U".toList = letter t 'U' ++ [] := rfl
  rw [format, String.toList_ofList, hwrite, List.append_nil, letter]

/-- What `Y-m-d H:i:s` writes. -/
theorem toList_format_dateAndTime (t : Instant) :
    (format t "Y-m-d H:i:s").toList =
      dashed (integer t.date.year) t.date (' ' :: timed t []) := by
  have hwrite : write t "Y-m-d H:i:s".toList = letter t 'Y' ++ '-' :: (letter t 'm' ++ '-' ::
      (letter t 'd' ++ ' ' :: (letter t 'H' ++ ':' :: (letter t 'i' ++ ':' ::
        (letter t 's' ++ []))))) := rfl
  rw [format, String.toList_ofList, hwrite]
  rfl

/-- What `Y-m-d` writes. -/
theorem toList_format_dateOnly (t : Instant) :
    (format t "Y-m-d").toList = dashed (integer t.date.year) t.date [] := by
  have hwrite : write t "Y-m-d".toList = letter t 'Y' ++ '-' :: (letter t 'm' ++ '-' ::
      (letter t 'd' ++ [])) := rfl
  rw [format, String.toList_ofList, hwrite]
  rfl

end Pattern

end PageLoom
