import PageLoom.Calendar.Reader
import PageLoom.Proofs.Calendar.Forms

/-!
# Readings — each form reads its own text and none of the later ones

    The text that a pattern writes is read by its form into the stamp of the
    instant (`internet_format`, `mail_format`, `dateAndTime_format`,
    `dateOnly_format`).  The forms that are tried before it refuse the text,
    whatever the instant: a count of seconds has no dash or comma in it
    (`seconds?_eq_none`), an internet timestamp ends with an offset
    (`internet_dashed`), a mail date has white space after its first number
    (`mail_dashed`), and a time follows the date (`dateAndTime_dateOnly`).
-/

namespace PageLoom

open Text Pattern

/-- The stamp of a date and a time of day. -/
def Date.stamp (d : Date) (hour minute second : Nat) (weekday : Option Nat) : Stamp :=
  { year := d.year, month := d.month, day := d.day, hour, minute, second, weekday }

namespace Stamp

/-- A reader that reads its part goes on with the rest. -/
theorem bind_of_some {α β : Type} {read : Option α} {a : α} {next : α → Option β} {b : β}
    (hread : read = some a) (hnext : next a = some b) : read.bind next = some b :=
  Option.bind_eq_some_iff.mpr ⟨a, hread, hnext⟩

/-- What a reader has read and left. -/
theorem of_bind_some {α β : Type} {read : Option α} {a : α} {next : α → Option β} {b : β}
    (hread : read = some a) (h : read.bind next = some b) : next a = some b := by
  rwa [hread, Option.bind_some] at h

/-- A number of two digits is read back. -/
theorem number_two {least n : Nat} (hleast : least ≤ 2) (hn : n < 100) (rest : List Char) :
    number least 2 (padded 2 n ++ rest) = some (n, rest) :=
  number_padded (by decide) hleast (Or.inl rfl) hn (Nat.lt_trans hn (by decide))

theorem isDigit_of_head {digits rest : List Char} (hne : digits ≠ [])
    (hdigits : ∀ c ∈ digits, c.isDigit = true) {c : Char}
    (h : (digits ++ rest).head? = some c) : c.isDigit = true := by
  cases digits with
  | nil => exact absurd rfl hne
  | cons d digits =>
      obtain rfl : d = c := Option.some.inj h
      exact hdigits d List.mem_cons_self

theorem isBlank_of_head_padded {width n : Nat} {rest : List Char} :
    ∀ c, (padded width n ++ rest).head? = some c → isBlank c = false :=
  fun _ hc => isBlank_of_isDigit
    (isDigit_of_head (padded_ne_nil width n) (fun _ => isDigit_of_mem_padded) hc)

/-- An integer starts with a digit or a dash. -/
theorem of_head_integer {n : Int} {rest : List Char} {c : Char}
    (h : (integer n ++ rest).head? = some c) : c.isDigit = true ∨ c = '-' := by
  cases n with
  | ofNat n =>
      rw [integer_ofNat] at h
      exact Or.inl (isDigit_of_head Nat.toDigits_ne_nil (fun _ => isDigit_of_mem_toDigits) h)
  | negSucc n =>
      rw [integer_neg] at h
      exact Or.inr (Option.some.inj h).symm

theorem isBlank_of_head_integer {n : Int} {rest : List Char} :
    ∀ c, (integer n ++ rest).head? = some c → isBlank c = false := by
  intro c hc
  rcases of_head_integer hc with hdigit | rfl
  · exact isBlank_of_isDigit hdigit
  · decide

theorem trimStart_dashed (year : Int) (d : Date) (rest : List Char) :
    trimStart (dashed (integer year) d rest) = dashed (integer year) d rest :=
  trimStart_of_head isBlank_of_head_integer

theorem trimStart_padded (width n : Nat) (rest : List Char) :
    trimStart (padded width n ++ rest) = padded width n ++ rest :=
  trimStart_of_head isBlank_of_head_padded

/-- The text of a weekday starts with a letter. -/
theorem isAlpha_of_head_weekday {t : Instant} {rest : List Char} {c : Char}
    (h : (short (weekdayName t) ++ rest).head? = some c) : c.isAlpha = true :=
  isAlpha_of_head_short Date.weekdayNames (Instant.weekday_lt t.dayNumber) rfl h

/-- The text of a month starts with a letter. -/
theorem isAlpha_of_head_month {t : Instant} {rest : List Char} {c : Char}
    (h : (short (monthName t) ++ rest).head? = some c) : c.isAlpha = true :=
  isAlpha_of_head_short Date.monthNames t.month_pred_lt rfl h

/-- The month of a mail date. -/
theorem shortName_monthName (t : Instant) (rest : List Char) :
    shortName Date.monthNames (short (monthName t) ++ rest) = some (t.date.month - 1, rest) :=
  shortName_month t.month_pred_lt rest

/-- The weekday of a mail date and the comma after it. -/
theorem mailWeekday_short (t : Instant) (rest : List Char) :
    mailWeekday (short (weekdayName t) ++ ',' :: rest) =
      some (some (Date.weekday t.dayNumber), rest) := by
  rw [mailWeekday, weekdayName, shortName_weekday (Instant.weekday_lt _)]
  exact congrArg (Option.map _) (mark_cons ',' rest)

/-- The seconds of a mail date. -/
theorem mailSecond_padded {n : Nat} (hn : n < 100) (rest : List Char) :
    mailSecond (':' :: (padded 2 n ++ rest)) = some (n, rest) := by
  have hmark : mark ':' (trimStart (':' :: (padded 2 n ++ rest))) = some (padded 2 n ++ rest) := rfl
  rw [mailSecond, hmark]
  exact number_two (by decide) hn rest

/-- A number of two digits is read back from the text without its leading white space,
    of which there is none. -/
theorem number_trimStart {least n : Nat} (hleast : least ≤ 2) (hn : n < 100) (rest : List Char) :
    number least 2 (trimStart (padded 2 n ++ rest)) = some (n, rest) := by
  rw [trimStart_padded, number_two hleast hn]

/-! ## Forms read their own texts -/

section Reads

variable {t : Instant}

/-- A count without a sign. -/
theorem seconds?_of_digits {digits : List Char} (hne : digits ≠ [])
    (hdigits : ∀ c ∈ digits, c.isDigit = true) (hsmall : decimalValue digits < Nat.pow 2 63) :
    seconds? digits = some (decimalValue digits : Int) := by
  unfold seconds?
  split
  rename_i heq
  split at heq
  · exact absurd (hdigits _ List.mem_cons_self) (by decide)
  · exact absurd (hdigits _ List.mem_cons_self) (by decide)
  · obtain ⟨rfl, rfl⟩ := Prod.mk.inj heq
    rw [decimal?_of_digits hne hdigits]
    exact if_pos hsmall

/-- **A count of seconds is read back** if it has 64 bits. -/
theorem seconds?_integer {n : Int} (hlow : -n ≤ Nat.pow 2 63) (hhigh : n < Nat.pow 2 63) :
    seconds? (integer n) = some n := by
  cases n with
  | ofNat n =>
      have hsmall : decimalValue (Nat.toDigits 10 n) < Nat.pow 2 63 := by
        rw [decimalValue_toDigits]
        exact Int.ofNat_lt.mp hhigh
      rw [integer_ofNat, seconds?_of_digits Nat.toDigits_ne_nil
        (fun c => isDigit_of_mem_toDigits) hsmall, decimalValue_toDigits]
      rfl
  | negSucc n =>
      have hsmall : n + 1 ≤ Nat.pow 2 63 := by
        have hword : Nat.pow 2 63 = 9223372036854775808 := rfl
        omega
      rw [integer_neg, seconds?]
      refine bind_of_some (decimal?_toDigits (n + 1)) ?_
      exact if_pos hsmall

/-- **The internet timestamp is read back.** -/
theorem internet_format (hnanos : t.nanos = 0) (hyear : 0 ≤ t.date.year ∧ t.date.year ≤ 9999) :
    internet (format t "c").toList = some (t.date.stamp t.hour t.minute t.second none) := by
  have hhour : t.hour < 100 := Nat.lt_trans t.hour_lt (by decide)
  have hminute : t.minute < 100 := Nat.lt_trans t.minute_lt (by decide)
  have hsecond : t.second < 100 := Nat.lt_trans (Instant.second_lt hnanos) (by decide)
  have hfour : t.date.year.toNat < Nat.pow 10 4 := by
    show _ < 10000
    omega
  have hyearRead : ∀ rest, number 4 4 (padded 4 t.date.year.toNat ++ rest) = some _ :=
    fun _ => number_padded (by decide) (by decide) (Or.inl rfl) hfour
      (Nat.lt_trans hfour (by decide))
  rw [toList_format_internet, paddedYear_eq hyear]
  refine bind_of_some (hyearRead _) ?_
  refine bind_of_some (mark_cons _ _) (bind_of_some (number_two (by decide) t.month_lt _) ?_)
  refine bind_of_some (mark_cons _ _) (bind_of_some (number_two (by decide) t.day_lt _) ?_)
  refine bind_of_some rfl (bind_of_some (number_two (by decide) hhour _) ?_)
  refine bind_of_some (mark_cons _ _) (bind_of_some (number_two (by decide) hminute _) ?_)
  refine bind_of_some (mark_cons _ _) (bind_of_some (number_two (by decide) hsecond _) ?_)
  -- no fraction, and an offset of zero
  refine bind_of_some (a := (0, ['+', '0', '0', ':', '0', '0'])) rfl ?_
  refine bind_of_some (a := (0, [])) rfl ?_
  show some _ = _
  rw [Int.toNat_of_nonneg hyear.1]
  rfl

/-- **The mail date is read back**, with its weekday. -/
theorem mail_format (hnanos : t.nanos = 0) (hyear : 0 ≤ t.date.year ∧ t.date.year ≤ 9999) :
    mail (format t "r").toList =
      some (t.date.stamp t.hour t.minute t.second (some (Date.weekday t.dayNumber))) := by
  have hhour : t.hour < 100 := Nat.lt_trans t.hour_lt (by decide)
  have hminute : t.minute < 100 := Nat.lt_trans t.minute_lt (by decide)
  have hsecond : t.second < 100 := Nat.lt_trans (Instant.second_lt hnanos) (by decide)
  have hfour : t.date.year.toNat < Nat.pow 10 4 := by
    show _ < 10000
    omega
  have hyearLength : (padded 4 t.date.year.toNat).length = 4 := length_padded (by decide) hfour
  have hyearRead : ∀ rest, number 2 (padded 4 t.date.year.toNat ++ ' ' :: rest).length
      (padded 4 t.date.year.toNat ++ ' ' :: rest) = some (t.date.year.toNat, ' ' :: rest) := by
    refine fun rest => number_padded (by decide) (by decide) (Or.inr ⟨?_, ?_⟩) hfour
      (Nat.lt_trans hfour (by decide))
    · rw [List.length_append, hyearLength]
      exact Nat.le_add_right _ _
    · exact endsDigits_cons (by decide) rest
  rw [toList_format_mail, paddedYear_eq hyear, mail,
    trimStart_of_head fun c hc => isBlank_of_isAlpha (isAlpha_of_head_weekday hc)]
  refine bind_of_some (mailWeekday_short t _) ?_
  refine bind_of_some ((congrArg _ (trimStart_padded 2 t.date.day _)).trans
    (number_two (by decide) t.day_lt _)) ?_
  refine bind_of_some (gap_space fun c hc => isBlank_of_isAlpha (isAlpha_of_head_month hc))
    (bind_of_some (shortName_monthName t _) ?_)
  refine bind_of_some (gap_space isBlank_of_head_padded) (bind_of_some (hyearRead _) ?_)
  refine bind_of_some (gap_space isBlank_of_head_padded)
    (bind_of_some (number_two (by decide) hhour _) ?_)
  refine bind_of_some (mark_cons _ _) ?_
  refine bind_of_some (number_trimStart (by decide) hminute _) ?_
  refine bind_of_some (mailSecond_padded hsecond _) ?_
  -- an offset of zero, and nothing after it
  refine bind_of_some (a := ['+', '0', '0', '0', '0']) rfl ?_
  refine bind_of_some (a := (0, [])) rfl ?_
  have hfull : ∀ rest : List Char,
      (padded 4 t.date.year.toNat ++ rest).length - rest.length = 4 := by
    intro rest
    rw [List.length_append, hyearLength, Nat.add_sub_cancel]
  have hyearNumber : (mailYear 4 t.date.year.toNat : Int) = t.date.year :=
    Int.toNat_of_nonneg hyear.1
  have hmonthNumber : t.date.month - 1 + 1 = t.date.month :=
    Nat.sub_add_cancel t.onCalendar_date.month_pos
  show some _ = _
  rw [hfull, hyearNumber, hmonthNumber]
  rfl

/-- A year without a sign. -/
theorem signedYear_of_digits {digits rest : List Char} (hne : digits ≠ [])
    (hdigits : ∀ c ∈ digits, c.isDigit = true) :
    signedYear (digits ++ rest) =
      (number 1 4 (digits ++ rest)).map fun (n, rest) => ((n : Int), rest) := by
  have hsign : ∀ c more, digits ++ rest = c :: more → c.isDigit = true :=
    fun c more h => isDigit_of_head hne hdigits (congrArg List.head? h)
  unfold signedYear
  split
  · rename_i h
    exact absurd (hsign _ _ h) (by decide)
  · rename_i h
    exact absurd (hsign _ _ h) (by decide)
  · rfl

/-- A year with a minus sign may have any number of digits. -/
theorem signedYear_minus (cs : List Char) :
    signedYear ('-' :: cs) = (number 1 cs.length cs).map fun (n, rest) => (-(n : Int), rest) :=
  rfl

/-- The year of a date is read up to the dash after it. -/
theorem signedYear_integer {year : Int} (hyear : 0 ≤ year ∧ year ≤ 9999) (rest : List Char) :
    signedYear (integer year ++ '-' :: rest) = some (year, '-' :: rest) := by
  have hfour : year.toNat < Nat.pow 10 4 := by
    show _ < 10000
    omega
  have hlength : (Nat.toDigits 10 year.toNat).length ≤ 4 :=
    (Nat.length_toDigits_le_iff (by decide) (by decide)).mpr hfour
  have hread : number 1 4 (Nat.toDigits 10 year.toNat ++ '-' :: rest) =
      some (decimalValue (Nat.toDigits 10 year.toNat), '-' :: rest) := by
    refine number_append Nat.toDigits_ne_nil (fun c => isDigit_of_mem_toDigits)
      (List.length_pos_iff.mpr Nat.toDigits_ne_nil)
      (Or.inr ⟨hlength, endsDigits_cons (by decide) rest⟩) ?_
    rw [decimalValue_toDigits]
    exact Nat.lt_trans hfour (by decide)
  rw [integer_eq hyear.1,
    signedYear_of_digits Nat.toDigits_ne_nil fun c => isDigit_of_mem_toDigits, hread,
    decimalValue_toDigits]
  exact congrArg (fun year => some (year, '-' :: rest)) (Int.toNat_of_nonneg hyear.1)

/-- The date in front of a text. -/
theorem dashedDate_dashed {year : Int} {d : Date} (hyear : 0 ≤ year ∧ year ≤ 9999)
    (hmonth : d.month < 100) (hday : d.day < 100) (rest : List Char) :
    dashedDate false (dashed (integer year) d rest) = some (year, d.month, d.day, rest) := by
  rw [dashedDate, trimStart_dashed]
  refine bind_of_some (signedYear_integer hyear _) (bind_of_some (mark_cons _ _) ?_)
  refine bind_of_some (number_trimStart (by decide) hmonth _) (bind_of_some (mark_cons _ _) ?_)
  refine bind_of_some (number_trimStart (by decide) hday _) rfl

/-- **Date and time are read back.** -/
theorem dateAndTime_format (hnanos : t.nanos = 0)
    (hyear : 0 ≤ t.date.year ∧ t.date.year ≤ 9999) :
    dateAndTime (format t "Y-m-d H:i:s").toList =
      some (t.date.stamp t.hour t.minute t.second none) := by
  have hhour : t.hour < 100 := Nat.lt_trans t.hour_lt (by decide)
  have hminute : t.minute < 100 := Nat.lt_trans t.minute_lt (by decide)
  have hsecond : t.second < 100 := Nat.lt_trans (Instant.second_lt hnanos) (by decide)
  have htime : colonTime false (timed t []) = some (t.hour, t.minute, t.second, []) := by
    rw [colonTime, timed]
    refine bind_of_some (number_trimStart (by decide) hhour _) (bind_of_some (mark_cons _ _) ?_)
    refine bind_of_some (number_trimStart (by decide) hminute _) (bind_of_some (mark_cons _ _) ?_)
    exact bind_of_some (number_trimStart (by decide) hsecond _) rfl
  rw [toList_format_dateAndTime]
  refine bind_of_some (dashedDate_dashed hyear t.month_lt t.day_lt _) ?_
  exact bind_of_some ((congrArg _ (trimStart_padded 2 t.hour _)).trans htime) rfl

/-- **A date alone is read back.** -/
theorem dateOnly_format (hyear : 0 ≤ t.date.year ∧ t.date.year ≤ 9999) :
    dateOnly (format t "Y-m-d").toList = some (t.date.stamp 0 0 0 none) := by
  rw [toList_format_dateOnly]
  exact bind_of_some (dashedDate_dashed hyear t.month_lt t.day_lt _) rfl

end Reads

/-! ## Forms refuse the later texts -/

/-- **A count of seconds** is made of digits after its first character. -/
theorem seconds?_eq_none {a b : List Char} {x : Char} (ha : a ≠ []) (hx : x.isDigit = false) :
    seconds? (a ++ x :: b) = none := by
  have hdecimal : ∀ digits : List Char, x ∈ digits → decimal? digits = none := by
    intro digits hmem
    have hall : digits.all Char.isDigit = false :=
      List.all_eq_false.mpr ⟨x, hmem, by rw [hx]; exact Bool.false_ne_true⟩
    rw [decimal?, hall, Bool.not_false, Bool.or_true, if_pos rfl]
  have hmem : ∀ rest c, a ++ x :: b = c :: rest → x ∈ rest := by
    intro rest c h
    cases a with
    | nil => exact absurd rfl ha
    | cons d a =>
        obtain ⟨-, rfl⟩ := List.cons.inj h
        exact List.mem_append_right _ List.mem_cons_self
  unfold seconds?
  split
  rename_i heq
  split at heq
  · rename_i hcs
    obtain ⟨-, rfl⟩ := Prod.mk.inj heq
    rw [hdecimal _ (hmem _ _ hcs)]
    rfl
  · rename_i hcs
    obtain ⟨-, rfl⟩ := Prod.mk.inj heq
    rw [hdecimal _ (hmem _ _ hcs)]
    rfl
  · obtain ⟨-, rfl⟩ := Prod.mk.inj heq
    rw [hdecimal _ (List.mem_append_right _ List.mem_cons_self)]
    rfl

/-- A weekday does not start an internet timestamp. -/
theorem internet_format_mail (t : Instant) : internet (format t "r").toList = none := by
  have hends : EndsDigits (format t "r").toList := by
    rw [toList_format_mail]
    exact fun c hc => isDigit_of_isAlpha (isAlpha_of_head_weekday hc)
  rw [internet, number_eq_none hends]
  rfl

theorem optionalFraction_of_digits {cs : List Char} (h : ∀ c ∈ cs, c.isDigit = true) :
    optionalFraction cs = some (0, cs) := by
  unfold optionalFraction
  split
  · exact absurd (h _ List.mem_cons_self) (by decide)
  · rfl

/-- Digits are no offset. -/
theorem offsetOrZulu_of_digits {between : List Char → Option (List Char)} {cs : List Char}
    (h : ∀ c ∈ cs, c.isDigit = true) : offsetOrZulu between cs = none := by
  unfold offsetOrZulu
  split
  · exact absurd (h _ List.mem_cons_self) (by decide)
  · exact absurd (h _ List.mem_cons_self) (by decide)
  · unfold offsetDigits
    split
    · exact absurd (h _ List.mem_cons_self) (by decide)
    · exact absurd (h _ List.mem_cons_self) (by decide)
    · exact absurd (h _ List.mem_cons_self) (by decide)
    · rfl

/-- **An internet timestamp has an offset** after its time of day. -/
theorem internet_dashed {t : Instant} {year : Int} {rest : List Char}
    (hrest : ∀ clock, dateEnd rest = some clock → clock = timed t []) :
    internet (dashed (integer year) t.date rest) = none := by
  have hhour : t.hour < 100 := Nat.lt_trans t.hour_lt (by decide)
  have hminute : t.minute < 100 := Nat.lt_trans t.minute_lt (by decide)
  refine Option.eq_none_iff_forall_ne_some.mpr fun s h => ?_
  obtain ⟨⟨y, afterYear⟩, hyear, hdate⟩ := Option.bind_eq_some_iff.mp h
  obtain ⟨more, hdash, hmonth⟩ := Option.bind_eq_some_iff.mp hdate
  obtain rfl := mark_eq_some hdash
  obtain ⟨-, rfl⟩ := number_integer hyear (by decide)
  have hmonthDash := of_bind_some (number_two (by decide) t.month_lt _) hmonth
  have hday := of_bind_some (mark_cons _ _) hmonthDash
  have hdateEnd := of_bind_some (number_two (by decide) t.day_lt _) hday
  obtain ⟨clock, hclock, hhours⟩ := Option.bind_eq_some_iff.mp hdateEnd
  obtain rfl := hrest clock hclock
  have hhourColon := of_bind_some (number_two (by decide) hhour _) hhours
  have hminutes := of_bind_some (mark_cons _ _) hhourColon
  have hminuteColon := of_bind_some (number_two (by decide) hminute _) hminutes
  have hseconds := of_bind_some (mark_cons _ _) hminuteColon
  obtain ⟨⟨second, after⟩, hsecond, hfraction⟩ := Option.bind_eq_some_iff.mp hseconds
  -- what the seconds leave is digits, which are no offset
  obtain ⟨digits, hsplit, -, -⟩ := exists_of_number hsecond
  have hafter : ∀ c ∈ after, c.isDigit = true := by
    intro c hc
    have hmem : c ∈ padded 2 t.second := by
      rw [← List.append_nil (padded 2 t.second), hsplit]
      exact List.mem_append_right _ hc
    exact isDigit_of_mem_padded hmem
  have hoffset := of_bind_some (optionalFraction_of_digits hafter) hfraction
  obtain ⟨offset, hread, -⟩ := Option.bind_eq_some_iff.mp hoffset
  rw [offsetOrZulu_of_digits hafter] at hread
  cases hread

/-- **A mail date has white space** after its first number. -/
theorem mail_dashed (year : Int) (d : Date) (rest : List Char) :
    mail (dashed (integer year) d rest) = none := by
  refine Option.eq_none_iff_forall_ne_some.mpr fun s h => ?_
  have hweekday : mailWeekday (dashed (integer year) d rest) =
      some (none, dashed (integer year) d rest) := by
    rw [mailWeekday, shortName_weekday_eq_none]
    intro c hc
    rcases of_head_integer hc with hdigit | rfl
    · exact isAlpha_of_isDigit hdigit
    · decide
  rw [mail, trimStart_dashed] at h
  have hday := of_bind_some hweekday h
  obtain ⟨⟨day, after⟩, hnumber, hmonth⟩ := Option.bind_eq_some_iff.mp hday
  obtain ⟨afterGap, hgap, -⟩ := Option.bind_eq_some_iff.mp hmonth
  obtain ⟨c, more, rfl, hc⟩ := exists_of_gap hgap
  rw [trimStart_dashed] at hnumber
  obtain ⟨rfl, -⟩ := number_integer hnumber
    (Bool.eq_false_iff.mpr fun hdigit => by rw [isBlank_of_isDigit hdigit] at hc; cases hc)
  exact absurd hc (by decide)

/-- A date goes on after the dash that ends its year. -/
theorem rest_of_signedYear {year y : Int} {rest more : List Char}
    (h : signedYear (integer year ++ '-' :: rest) = some (y, '-' :: more)) : more = rest := by
  cases year with
  | ofNat n =>
      rw [integer_ofNat, signedYear_of_digits Nat.toDigits_ne_nil fun c => isDigit_of_mem_toDigits,
        ← integer_ofNat] at h
      obtain ⟨⟨k, left⟩, hread, hleft⟩ := Option.map_eq_some_iff.mp h
      obtain ⟨-, rfl⟩ := Prod.mk.inj hleft
      exact (number_integer hread (by decide)).2
  | negSucc n =>
      rw [integer_neg, List.cons_append, signedYear_minus, ← integer_ofNat] at h
      obtain ⟨⟨k, left⟩, hread, hleft⟩ := Option.map_eq_some_iff.mp h
      obtain ⟨-, rfl⟩ := Prod.mk.inj hleft
      exact (number_integer hread (by decide)).2

/-- **A date has nothing after it** that date and time would read. -/
theorem dateAndTime_dateOnly {year : Int} {d : Date} (hmonth : d.month < 100)
    (hday : d.day < 100) : dateAndTime (dashed (integer year) d []) = none := by
  refine Option.eq_none_iff_forall_ne_some.mpr fun s h => ?_
  obtain ⟨⟨y, month, day, more⟩, hdate, htime⟩ := Option.bind_eq_some_iff.mp h
  rw [dashedDate, trimStart_dashed] at hdate
  obtain ⟨⟨y', afterYear⟩, hyear, hdash⟩ := Option.bind_eq_some_iff.mp hdate
  obtain ⟨afterDash, hmark, hmonths⟩ := Option.bind_eq_some_iff.mp hdash
  obtain rfl : afterYear = '-' :: afterDash := mark_eq_some hmark
  obtain rfl := rest_of_signedYear hyear
  have hmonthDash := of_bind_some (number_trimStart (by decide) hmonth _) hmonths
  have hdays := of_bind_some (mark_cons _ _) hmonthDash
  have hdone := of_bind_some (number_trimStart (by decide) hday _) hdays
  cases hdone
  cases htime

end Stamp

end PageLoom
