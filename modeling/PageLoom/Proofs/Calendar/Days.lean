import PageLoom.Calendar.Date

/-!
# Days — a day number and its date tell each other

    The days before a year are at most two days off the mean of 400 years
    (`daysBeforeYear_near`), so the year that is guessed from the mean is off by
    one at most, and the year that is found has the day in it
    (`yearOfDays_spec`).  Within the year the month is the first whose end lies
    after the day (`exists_of_monthAndDay`).

    The date that is found is therefore on the calendar (`ofDayNumber_spec`) and
    has the day number it was found from (`dayNumber_ofDayNumber`).
-/

namespace PageLoom.Date

/-! ## Years -/

/-- The number of days of some months. -/
def total (lengths : List Nat) : Nat :=
  lengths.foldl (· + ·) 0

theorem total_cons (length : Nat) (lengths : List Nat) :
    total (length :: lengths) = length + total lengths := by
  rw [total, ← List.sum_eq_foldl_nat, List.sum_cons, List.sum_eq_foldl_nat]
  rfl

/-- The number of days of a year. -/
def yearLength (year : Int) : Nat :=
  total (monthLengths year)

theorem isLeapYear_iff {year : Int} :
    isLeapYear year = true ↔ year % 4 = 0 ∧ (year % 100 ≠ 0 ∨ year % 400 = 0) := by
  rw [isLeapYear, Bool.and_eq_true, Bool.or_eq_true, beq_iff_eq, bne_iff_ne, beq_iff_eq]

theorem yearLength_eq (year : Int) : yearLength year = if isLeapYear year then 366 else 365 := by
  rw [yearLength, monthLengths]
  split
  · rfl
  · rfl

/-- **A year begins where the one before it ends.** -/
theorem daysBeforeYear_succ (year : Int) :
    daysBeforeYear (year + 1) = daysBeforeYear year + yearLength year := by
  rw [yearLength_eq]
  simp only [daysBeforeYear]
  split
  · rename_i h
    rw [isLeapYear_iff] at h
    omega
  · rename_i h
    rw [isLeapYear_iff] at h
    omega

/-- **The days before a year are near the mean** of 146097 days in 400 years. -/
theorem daysBeforeYear_near (year : Int) :
    146097 * (year - 1) - 699 ≤ 400 * daysBeforeYear year ∧
      400 * daysBeforeYear year ≤ 146097 * (year - 1) + 396 := by
  simp only [daysBeforeYear]
  omega

/-- **The year of a day** begins on the day or before, and ends after it. -/
theorem yearOfDays_spec (days : Int) :
    daysBeforeYear (yearOfDays days) ≤ days ∧ days < daysBeforeYear (yearOfDays days + 1) := by
  obtain ⟨guess, hguess⟩ : ∃ guess, days * 400 / 146097 + 1 = guess := ⟨_, rfl⟩
  have hyear : yearOfDays days = if days < daysBeforeYear guess then guess - 1
      else if daysBeforeYear (guess + 1) ≤ days then guess + 1 else guess := by
    rw [← hguess]
    rfl
  have hmean : 146097 * (guess - 1) ≤ 400 * days ∧ 400 * days < 146097 * guess := by omega
  have hbefore := daysBeforeYear_near (guess - 1)
  have hafter := daysBeforeYear_near (guess + 1 + 1)
  rw [hyear]
  by_cases hlate : days < daysBeforeYear guess
  · rw [if_pos hlate, Int.sub_add_cancel]
    omega
  · rw [if_neg hlate]
    by_cases hearly : daysBeforeYear (guess + 1) ≤ days
    · rw [if_pos hearly]
      omega
    · rw [if_neg hearly]
      omega

/-! ## Months -/

/-- **The month of a day of the year** is the one in which it falls: the months
    before it end on the day or before, and it ends after it. -/
theorem exists_of_monthAndDay (month : Nat) {lengths : List Nat} {ordinal : Nat}
    (h : ordinal < total lengths) :
    ∃ before length after, lengths = before ++ length :: after ∧ total before ≤ ordinal ∧
      ordinal < total before + length ∧
      monthAndDay month lengths ordinal = (month + before.length, ordinal - total before + 1) := by
  induction lengths generalizing month ordinal with
  | nil => exact absurd h (Nat.not_lt_zero _)
  | cons length lengths ih =>
      rw [monthAndDay]
      by_cases hin : ordinal < length
      · rw [if_pos hin]
        have hfirst : ordinal < total [] + length := by rwa [total, List.foldl_nil, Nat.zero_add]
        exact ⟨[], length, lengths, rfl, Nat.zero_le _, hfirst, rfl⟩
      · rw [total_cons] at h
        obtain ⟨before, found, after, rfl, hbefore, hfound, hdate⟩ :=
          ih (month + 1) (show ordinal - length < total lengths by omega)
        refine ⟨length :: before, found, after, rfl, ?_, ?_, ?_⟩
        · rw [total_cons]
          omega
        · rw [total_cons]
          omega
        · rw [if_neg hin, hdate, total_cons, List.length_cons, Prod.mk.injEq]
          omega

theorem daysBeforeMonth_eq (year : Int) (month : Nat) :
    daysBeforeMonth year month = total ((monthLengths year).take (month - 1)) :=
  rfl

theorem length_monthLengths (year : Int) : (monthLengths year).length = 12 := rfl

/-- The length of a month by its place in the year. -/
theorem daysInMonth_of_eq_append {year : Int} {before after : List Nat} {length : Nat}
    (h : monthLengths year = before ++ length :: after) :
    daysInMonth year (1 + before.length) = length := by
  rw [daysInMonth, if_neg (by omega), Nat.add_sub_cancel_left, h,
    List.getElem?_append_right (Nat.le_refl _), Nat.sub_self]
  rfl

/-- No month is longer than 31 days. -/
theorem daysInMonth_le (year : Int) (month : Nat) : daysInMonth year month ≤ 31 := by
  have hlengths : ∀ length ∈ monthLengths year, length ≤ 31 := by
    rw [monthLengths]
    cases isLeapYear year with
    | false => decide
    | true => decide
  rw [daysInMonth]
  split
  · exact Nat.zero_le _
  · cases hlength : (monthLengths year)[month - 1]? with
    | none => exact Nat.zero_le _
    | some length => exact hlengths length (List.mem_of_getElem? hlength)

/-! ## Dates -/

/-- **On the calendar**: the month and the day exist. -/
structure OnCalendar (d : Date) : Prop where
  month_pos : 1 ≤ d.month
  month_le : d.month ≤ 12
  day_pos : 1 ≤ d.day
  day_le : d.day ≤ daysInMonth d.year d.month

theorem ofDayNumber_eq (n : Int) :
    ofDayNumber n = ⟨yearOfDays (n + epochDays),
      (monthAndDay 1 (monthLengths (yearOfDays (n + epochDays)))
        (n + epochDays - daysBeforeYear (yearOfDays (n + epochDays))).toNat).1,
      (monthAndDay 1 (monthLengths (yearOfDays (n + epochDays)))
        (n + epochDays - daysBeforeYear (yearOfDays (n + epochDays))).toNat).2⟩ :=
  rfl

/-- **The date of a day number**: the year in which the day falls, and the month
    and the day at its place in the year. -/
theorem ofDayNumber_spec (n : Int) :
    (ofDayNumber n).OnCalendar ∧ (ofDayNumber n).year = yearOfDays (n + epochDays) ∧
      ((ofDayNumber n).ordinal : Int) =
        n + epochDays - daysBeforeYear (yearOfDays (n + epochDays)) := by
  obtain ⟨hstart, hend⟩ := yearOfDays_spec (n + epochDays)
  rw [daysBeforeYear_succ] at hend
  generalize hyear : yearOfDays (n + epochDays) = year at hstart hend ⊢
  generalize hordinal : (n + epochDays - daysBeforeYear year).toNat = ordinal
  have hin : ordinal < total (monthLengths year) := by
    rw [yearLength] at hend
    omega
  obtain ⟨before, length, after, hlengths, hbefore, hlength, hmonth⟩ := exists_of_monthAndDay 1 hin
  have hdate : ofDayNumber n = ⟨year, 1 + before.length, ordinal - total before + 1⟩ := by
    rw [ofDayNumber_eq, hyear, hordinal, hmonth]
  have hcount : before.length + (after.length + 1) = 12 := by
    rw [← length_monthLengths year, hlengths, List.length_append, List.length_cons]
  have hmonthLe : 1 + before.length ≤ 12 := by omega
  have hdayLe : ordinal - total before + 1 ≤ daysInMonth year (1 + before.length) := by
    rw [daysInMonth_of_eq_append hlengths]
    omega
  have hbeforeMonth : daysBeforeMonth year (1 + before.length) = total before := by
    rw [daysBeforeMonth_eq, Nat.add_sub_cancel_left, hlengths, List.take_left]
  rw [hdate]
  refine ⟨⟨Nat.le_add_right _ _, hmonthLe, Nat.le_add_left _ _, hdayLe⟩, rfl, ?_⟩
  show ((daysBeforeMonth year (1 + before.length) + (ordinal - total before) : Nat) : Int) = _
  rw [hbeforeMonth]
  omega

/-- **The date of a day number has this day number.** -/
theorem dayNumber_ofDayNumber (n : Int) : (ofDayNumber n).dayNumber = n := by
  obtain ⟨-, hyear, hordinal⟩ := ofDayNumber_spec n
  rw [dayNumber, hyear, hordinal]
  omega

end PageLoom.Date
