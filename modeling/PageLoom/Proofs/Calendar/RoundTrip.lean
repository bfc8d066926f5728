import PageLoom.Proofs.Calendar.Readings

/-!
# Round trip — dates survive writing and reading

    A stamp of the calendar has an instant (`Stamp.instant?_eq_some`), and the stamp
    of an instant has this one (`instant?_stamp`).  What the patterns write is not
    changed by trimming (`trim_format_internet` and its like).

    Reading tries five alternatives in order (`read?_eq_alternatives`).  Each of
    them leaves the texts of the later patterns alone (`pairwise_alternatives`), so a
    text comes to the alternative of its own pattern, which reads it (`read?_format`).
-/

namespace PageLoom

open Text Pattern

namespace Instant

/-- **The seconds of the years** from 0 to 9999 lie within the supported years,
    by a day and more. -/
theorem seconds_bounds {t : Instant} (hyear : 0 ≤ t.date.year ∧ t.date.year ≤ 9999) :
    firstSecond + 86400 ≤ t.seconds ∧ t.seconds + 86400 ≤ lastSecond := by
  have hdate : t.date.year = Date.yearOfDays (t.dayNumber + Date.epochDays) :=
    (Date.ofDayNumber_spec t.dayNumber).2.1
  rw [hdate] at hyear
  have hdays := Date.yearOfDays_spec (t.dayNumber + Date.epochDays)
  have hfirst := Date.daysBeforeYear_near (Date.yearOfDays (t.dayNumber + Date.epochDays))
  have hlast := Date.daysBeforeYear_near (Date.yearOfDays (t.dayNumber + Date.epochDays) + 1)
  simp only [firstSecond, lastSecond, Date.epochDays, dayNumber] at *
  omega

/-- In the years of four digits every date is one that a reader accepts. -/
theorem isValid_date {t : Instant} (hyear : 0 ≤ t.date.year ∧ t.date.year ≤ 9999) :
    t.date.isValid = true := by
  have hfirst : Date.firstYear ≤ t.date.year := Int.le_trans (by decide) hyear.1
  have hlast : t.date.year ≤ Date.lastYear := Int.le_trans hyear.2 (by decide)
  rw [Date.isValid, decide_eq_true hfirst, decide_eq_true hlast,
    decide_eq_true t.onCalendar_date.day_pos, decide_eq_true t.onCalendar_date.day_le]
  rfl

end Instant

/-- **The instant of a stamp** in UTC whose parts are in range and whose second is
    not a leap second. -/
theorem Stamp.instant?_eq_some {s : Stamp} {d : Date} {wall : Int} (hoffset : s.offset = 0)
    (hdate : ⟨s.year, s.month, s.day⟩ = d) (hvalid : d.isValid = true)
    (hhour : s.hour < 24) (hminute : s.minute < 60) (hsecond : s.second < 60)
    (hweekday : s.weekday.getD (Date.weekday d.dayNumber) = Date.weekday d.dayNumber)
    (hwall : d.dayNumber * 86400 + (s.hour * 3600 + s.minute * 60 + s.second : Nat) = wall)
    (hrange : Instant.firstSecond ≤ wall ∧ wall ≤ Instant.lastSecond) :
    s.instant? = some ⟨wall, s.nanos⟩ := by
  have hfull : s.second ≠ 60 := Nat.ne_of_lt hsecond
  have hclock : ¬(!d.isValid || decide (23 < s.hour) || decide (59 < s.minute) ||
      decide (60 < s.second) || decide ((0 : Int) ≤ -86400) ||
        decide (86400 ≤ (0 : Int))) = true := by
    rw [hvalid, decide_eq_false (by omega : ¬23 < s.hour),
      decide_eq_false (by omega : ¬59 < s.minute), decide_eq_false (by omega : ¬60 < s.second)]
    decide
  have hbetween : ¬(decide (wall < Instant.firstSecond) || decide (Instant.lastSecond < wall)) =
      true := by
    rw [decide_eq_false (Int.not_lt.mpr hrange.1), decide_eq_false (Int.not_lt.mpr hrange.2)]
    exact Bool.false_ne_true
  simp only [instant?, hdate, hoffset, if_neg hfull, Int.sub_zero]
  rw [if_neg hclock, hweekday, bne_self_eq_false, if_neg Bool.false_ne_true, hwall,
    if_neg hbetween]

namespace Instant

/-- The instant that a clock shows on the day of another. -/
theorem instant?_stamp {t : Instant} (hyear : 0 ≤ t.date.year ∧ t.date.year ≤ 9999)
    {hour minute second : Nat} (hhour : hour < 24) (hminute : minute < 60) (hsecond : second < 60)
    {weekday : Option Nat}
    (hweekday : weekday.getD (Date.weekday t.dayNumber) = Date.weekday t.dayNumber) :
    (t.date.stamp hour minute second weekday).instant? =
      some ⟨t.dayNumber * 86400 + (hour * 3600 + minute * 60 + second : Nat), 0⟩ := by
  have hbounds := seconds_bounds hyear
  have hday : t.dayNumber * 86400 ≤ t.seconds ∧ t.seconds < t.dayNumber * 86400 + 86400 := by
    rw [dayNumber]
    omega
  rw [← dayNumber_date t] at hweekday hday ⊢
  exact Stamp.instant?_eq_some rfl rfl (isValid_date hyear) hhour hminute hsecond hweekday rfl
    (by omega)

end Instant

/-! ## The ends of the texts -/

namespace Pattern

theorem suffix_cut (a : List Char) (x : Char) (rest : List Char) : rest <:+ a ++ x :: rest :=
  (List.suffix_cons x rest).trans (List.suffix_append a _)

theorem suffix_dashed (year : List Char) (d : Date) (rest : List Char) :
    padded 2 d.day ++ rest <:+ dashed year d rest :=
  (suffix_cut (padded 2 d.month) '-' _).trans (suffix_cut year '-' _)

theorem suffix_timed (t : Instant) (rest : List Char) :
    padded 2 t.second ++ rest <:+ timed t rest :=
  (suffix_cut (padded 2 t.minute) ':' _).trans (suffix_cut (padded 2 t.hour) ':' _)

/-- A text that starts with a solid character and ends with digits is not trimmed. -/
theorem trim_of_ends {text digits : List Char} (hend : digits <:+ text) (hne : digits ≠ [])
    (hdigits : ∀ c ∈ digits, c.isDigit = true)
    (hstart : ∀ c, text.head? = some c → isBlank c = false) : trim text = text := by
  obtain ⟨a, rfl⟩ := hend
  refine trim_of_solid ⟨hstart, fun c hc => isBlank_of_isDigit (hdigits c ?_)⟩
  rw [List.getLast?_append, List.getLast?_eq_some_getLast hne, Option.some_or] at hc
  exact List.mem_of_getLast? (Option.some.inj hc ▸ List.getLast?_eq_some_getLast hne)

theorem trim_format_seconds (t : Instant) :
    trim (format t "U").toList = (format t "U").toList := by
  have hstart : ∀ c, (integer t.seconds).head? = some c → isBlank c = false := by
    rw [← List.append_nil (integer t.seconds)]
    exact Stamp.isBlank_of_head_integer
  have hend : ∃ n, Nat.toDigits 10 n <:+ integer t.seconds := by
    cases t.seconds with
    | ofNat n => exact ⟨n, [], (integer_ofNat n).symm⟩
    | negSucc n => exact ⟨n + 1, ['-'], (integer_neg n).symm⟩
  obtain ⟨n, hend⟩ := hend
  rw [toList_format_seconds]
  exact trim_of_ends hend Nat.toDigits_ne_nil (fun c => isDigit_of_mem_toDigits) hstart

/-- An offset of zero ends with zeros. -/
theorem suffix_timed_offset (t : Instant) (offset : List Char) :
    ['0', '0'] <:+ timed t (offset ++ ['0', '0']) :=
  (List.suffix_append offset _).trans
    ((List.suffix_append (padded 2 t.second) _).trans (suffix_timed t _))

theorem trim_format_internet {t : Instant} (hyear : 0 ≤ t.date.year ∧ t.date.year ≤ 9999) :
    trim (format t "c").toList = (format t "c").toList := by
  have hend : ['0', '0'] <:+ dashed (paddedYear t.date.year) t.date
      ('T' :: timed t ['+', '0', '0', ':', '0', '0']) :=
    (suffix_timed_offset t ['+', '0', '0', ':']).trans
      ((suffix_cut _ 'T' _).trans (suffix_dashed _ t.date _))
  rw [toList_format_internet]
  refine trim_of_ends hend (List.cons_ne_nil _ _) (List.all_eq_true.mp rfl) ?_
  rw [paddedYear_eq hyear]
  exact Stamp.isBlank_of_head_padded

theorem trim_format_mail (t : Instant) :
    trim (format t "r").toList = (format t "r").toList := by
  have hend : ['0', '0'] <:+ (format t "r").toList := by
    rw [toList_format_mail]
    refine (suffix_timed_offset t [' ', '+', '0', '0']).trans
      ((suffix_cut (paddedYear t.date.year) ' ' _).trans ?_)
    exact (suffix_cut _ ' ' _).trans ((suffix_cut _ ' ' _).trans
      ((List.suffix_cons ' ' _).trans (suffix_cut _ ',' _)))
  refine trim_of_ends hend (List.cons_ne_nil _ _) (List.all_eq_true.mp rfl) ?_
  rw [toList_format_mail]
  exact fun c hc => Stamp.isBlank_of_isAlpha (Stamp.isAlpha_of_head_weekday hc)

theorem trim_format_dateAndTime (t : Instant) :
    trim (format t "Y-m-d H:i:s").toList = (format t "Y-m-d H:i:s").toList := by
  have htime : padded 2 t.second <:+ timed t [] := by
    have hsecond := suffix_timed t []
    rwa [List.append_nil] at hsecond
  have hend : padded 2 t.second <:+ dashed (integer t.date.year) t.date (' ' :: timed t []) :=
    htime.trans ((suffix_cut _ ' ' _).trans (suffix_dashed _ t.date _))
  rw [toList_format_dateAndTime]
  exact trim_of_ends hend (padded_ne_nil _ _) (fun c => isDigit_of_mem_padded)
    Stamp.isBlank_of_head_integer

theorem trim_format_dateOnly (t : Instant) :
    trim (format t "Y-m-d").toList = (format t "Y-m-d").toList := by
  have hend : padded 2 t.date.day <:+ dashed (integer t.date.year) t.date [] := by
    have hday := suffix_dashed (integer t.date.year) t.date []
    rwa [List.append_nil] at hday
  rw [toList_format_dateOnly]
  exact trim_of_ends hend (padded_ne_nil _ _) (fun c => isDigit_of_mem_padded)
    Stamp.isBlank_of_head_integer

end Pattern

/-! ## The alternatives of reading -/

/-- One way to read a date, and the pattern that writes it.  The reader gives nothing
    where it leaves the text to the alternatives after it. -/
structure Alternative where
  pattern : String
  reads : List Char → Option (Option Instant)

namespace Instant

/-- The alternative of a written form. -/
def byForm (pattern : String) (form : List Char → Option Stamp) : Alternative :=
  { pattern, reads := fun cs => ((form cs).bind Stamp.instant?).map some }

/-- The alternative of a count of seconds, which is left to no other even where it is
    out of range. -/
def bySeconds : Alternative :=
  { pattern := "U", reads := fun cs => (Stamp.seconds? cs).map (ofTimestamp? · 0) }

/-- **The alternatives** in the order in which they are tried. -/
def alternatives : List Alternative :=
  [bySeconds, byForm "c" Stamp.internet, byForm "r" Stamp.mail,
    byForm "Y-m-d H:i:s" Stamp.dateAndTime, byForm "Y-m-d" Stamp.dateOnly]

/-- The first of several results, each of which is the last word. -/
theorem join_findSome? {α β : Type} (read : α → Option β) (forms : List α) :
    (forms.findSome? fun form => (read form).map some).join = forms.findSome? read := by
  induction forms with
  | nil => rfl
  | cons form forms ih =>
      rw [List.findSome?_cons, List.findSome?_cons]
      cases read form with
      | none => exact ih
      | some result => rfl

/-- **Reading tries the alternatives** on the trimmed text and takes what the first
    says that does not leave it to the others. -/
theorem read?_eq_alternatives (text : String) :
    read? text =
      (alternatives.findSome? fun alternative => alternative.reads (trim text.toList)).join := by
  rw [read?]
  cases htext : trim text.toList with
  | nil => rfl
  | cons c cs =>
      rw [alternatives, List.findSome?_cons, bySeconds]
      dsimp only
      cases hseconds : Stamp.seconds? (c :: cs) with
      | some seconds => rfl
      | none => exact (join_findSome? _ _).symm

/-- What is no count of seconds is left to the other readers. -/
theorem bySeconds_eq_none {cs : List Char} (h : Stamp.seconds? cs = none) :
    bySeconds.reads cs = none := by
  show Option.map _ (Stamp.seconds? cs) = none
  rw [h, Option.map_none]

/-- A count of seconds that has an instant is read as that instant. -/
theorem bySeconds_eq_some {cs : List Char} {seconds : Int} {t : Instant}
    (hcount : Stamp.seconds? cs = some seconds) (hinstant : ofTimestamp? seconds 0 = some t) :
    bySeconds.reads cs = some (some t) := by
  show Option.map _ (Stamp.seconds? cs) = _
  rw [hcount, Option.map_some, hinstant]

/-- What is not in a form is left to the other readers. -/
theorem byForm_eq_none {pattern : String} {form : List Char → Option Stamp} {cs : List Char}
    (h : form cs = none) : (byForm pattern form).reads cs = none := by
  show Option.map some ((form cs).bind _) = none
  rw [h]
  rfl

/-- A stamp that a form reads is read as its instant. -/
theorem byForm_eq_some {pattern : String} {form : List Char → Option Stamp} {cs : List Char}
    {stamp : Stamp} {t : Instant} (hform : form cs = some stamp)
    (hstamp : stamp.instant? = some t) :
    (byForm pattern form).reads cs = some (some t) := by
  show Option.map some ((form cs).bind _) = _
  rw [hform, Option.bind_some, hstamp]
  rfl

/-- **No alternative captures the text of a later pattern.** -/
theorem pairwise_alternatives (t : Instant) :
    alternatives.Pairwise fun earlier later =>
      earlier.reads (format t later.pattern).toList = none := by
  refine .cons ?seconds (.cons ?internet (.cons ?mail (.cons ?dateAndTime (.cons ?dateOnly .nil))))
  all_goals
    simp only [List.forall_mem_cons, List.not_mem_nil, false_imp_iff, implies_true, and_true]
  case seconds =>
    refine ⟨?_, ?_, ?_, ?_⟩
    · refine bySeconds_eq_none ((congrArg _ (toList_format_internet t)).trans ?_)
      exact Stamp.seconds?_eq_none (paddedYear_ne_nil _) (by decide)
    · refine bySeconds_eq_none ((congrArg _ (toList_format_mail t)).trans ?_)
      -- the space after the comma follows a character at any rate
      rw [List.append_cons]
      exact Stamp.seconds?_eq_none (List.append_ne_nil_of_right_ne_nil _ (List.cons_ne_nil _ _))
        (by decide)
    · refine bySeconds_eq_none ((congrArg _ (toList_format_dateAndTime t)).trans ?_)
      exact Stamp.seconds?_eq_none (integer_ne_nil _) (by decide)
    · refine bySeconds_eq_none ((congrArg _ (toList_format_dateOnly t)).trans ?_)
      exact Stamp.seconds?_eq_none (integer_ne_nil _) (by decide)
  case internet =>
    refine ⟨byForm_eq_none (Stamp.internet_format_mail t), byForm_eq_none ?_, byForm_eq_none ?_⟩
    · refine (congrArg _ (toList_format_dateAndTime t)).trans ?_
      exact Stamp.internet_dashed fun clock hclock => (Option.some.inj hclock).symm
    · refine (congrArg _ (toList_format_dateOnly t)).trans ?_
      exact Stamp.internet_dashed fun clock hclock => nomatch hclock
  case mail =>
    refine ⟨byForm_eq_none ?_, byForm_eq_none ?_⟩
    · exact (congrArg _ (toList_format_dateAndTime t)).trans (Stamp.mail_dashed _ _ _)
    · exact (congrArg _ (toList_format_dateOnly t)).trans (Stamp.mail_dashed _ _ _)
  case dateAndTime =>
    refine byForm_eq_none ?_
    exact (congrArg _ (toList_format_dateOnly t)).trans
      (Stamp.dateAndTime_dateOnly t.month_lt t.day_lt)

/-- **The alternative of a pattern reads its text.** -/
theorem read?_format {t : Instant} (alternative : Alternative) {result : Option Instant}
    (hmem : alternative ∈ alternatives)
    (htrim : trim (format t alternative.pattern).toList = (format t alternative.pattern).toList)
    (hread : alternative.reads (format t alternative.pattern).toList = some result) :
    read? (format t alternative.pattern) = result := by
  obtain ⟨before, after, hsplit⟩ := List.append_of_mem hmem
  have hpairs := pairwise_alternatives t
  rw [hsplit, List.pairwise_append] at hpairs
  have hbefore : ∀ earlier ∈ before,
      earlier.reads (format t alternative.pattern).toList = none :=
    fun earlier hearlier => hpairs.2.2 earlier hearlier alternative List.mem_cons_self
  rw [read?_eq_alternatives, htrim, hsplit, List.findSome?_append,
    List.findSome?_eq_none_iff.mpr hbefore, Option.none_or, List.findSome?_cons, hread]
  rfl

/-- A text in the form of a pattern is read as the stamp in it says, for no other
    reader captures it. -/
theorem read?_format_of_form {t u : Instant} {pattern : String}
    {form : List Char → Option Stamp} {stamp : Stamp}
    (hmem : byForm pattern form ∈ alternatives)
    (htrim : trim (format t pattern).toList = (format t pattern).toList)
    (hform : form (format t pattern).toList = some stamp) (hstamp : stamp.instant? = some u) :
    read? (format t pattern) = some u :=
  read?_format (byForm pattern form) hmem htrim (byForm_eq_some hform hstamp)

/-- **Counts of seconds** are read back. -/
theorem read?_format_seconds {t : Instant} (hnanos : t.nanos = 0)
    (hyear : 0 ≤ t.date.year ∧ t.date.year ≤ 9999) : read? (format t "U") = some t := by
  obtain ⟨hfirst, hlast⟩ := seconds_bounds hyear
  have hlow : firstSecond ≤ t.seconds := by omega
  have hhigh : t.seconds ≤ lastSecond := by omega
  have hcount : Stamp.seconds? (format t "U").toList = some t.seconds := by
    have hword : ((Nat.pow 2 63 : Nat) : Int) = 9223372036854775808 := rfl
    rw [firstSecond] at hlow
    rw [lastSecond] at hhigh
    rw [toList_format_seconds]
    exact Stamp.seconds?_integer (by omega) (by omega)
  have hinstant : ofTimestamp? t.seconds 0 = some t := by
    rw [ofTimestamp?, decide_eq_false (Int.not_lt.mpr hlow), decide_eq_false (Int.not_lt.mpr hhigh)]
    exact congrArg (fun nanos => some (⟨t.seconds, nanos⟩ : Instant)) hnanos.symm
  exact read?_format bySeconds (.head _) (trim_format_seconds t)
    (bySeconds_eq_some hcount hinstant)

/-- **Dates survive writing and reading**: every instant of the years 0 to 9999 that has
    no fraction of a second is read back from what `c`, `r`, `U` and `Y-m-d H:i:s` write
    of it, and midnight of its day from what `Y-m-d` writes.  No alternative captures the
    text of a later pattern, whatever the instant. -/
theorem round_trip (t : Instant) :
    (t.nanos = 0 → 0 ≤ t.date.year → t.date.year ≤ 9999 →
      (∀ pattern ∈ ["c", "r", "U", "Y-m-d H:i:s"], read? (format t pattern) = some t) ∧
        read? (format t "Y-m-d") = some ⟨t.dayNumber * 86400, 0⟩) ∧
      alternatives.Pairwise fun earlier later =>
        earlier.reads (format t later.pattern).toList = none := by
  refine ⟨fun hnanos hfirst hlast => ?_, pairwise_alternatives t⟩
  have hyear := And.intro hfirst hlast
  have hclock : ∀ weekday : Option Nat,
      weekday.getD (Date.weekday t.dayNumber) = Date.weekday t.dayNumber →
        (t.date.stamp t.hour t.minute t.second weekday).instant? = some t := by
    intro weekday hweekday
    rw [instant?_stamp hyear t.hour_lt t.minute_lt (second_lt hnanos) hweekday, ← seconds_eq hnanos,
      ← hnanos]
  refine ⟨?_, ?_⟩
  · refine List.forall_mem_cons.mpr ⟨?_, List.forall_mem_cons.mpr ⟨?_, List.forall_mem_cons.mpr ⟨?_,
      List.forall_mem_singleton.mpr ?_⟩⟩⟩
    · exact read?_format_of_form (.tail _ (.head _)) (trim_format_internet hyear)
        (Stamp.internet_format hnanos hyear) (hclock none rfl)
    · exact read?_format_of_form (.tail _ (.tail _ (.head _))) (trim_format_mail t)
        (Stamp.mail_format hnanos hyear) (hclock _ rfl)
    · exact read?_format_seconds hnanos hyear
    · exact read?_format_of_form (.tail _ (.tail _ (.tail _ (.head _)))) (trim_format_dateAndTime t)
        (Stamp.dateAndTime_format hnanos hyear) (hclock none rfl)
  · refine read?_format_of_form (.tail _ (.tail _ (.tail _ (.tail _ (.head _)))))
      (trim_format_dateOnly t) (Stamp.dateOnly_format hyear) ?_
    rw [instant?_stamp hyear (by decide) (by decide) (by decide) rfl]
    exact congrArg (fun seconds => some (⟨seconds, 0⟩ : Instant)) (Int.add_zero _)

/-- The last second of a leap day, long before the first of the count, in a year that
    some of the patterns write with one digit and others with four. -/
theorem round_trip_leap_day :
    (⟨-62035804801, 0⟩ : Instant).date = ⟨4, 2, 29⟩ ∧
      format ⟨-62035804801, 0⟩ "c Y" = "0004-02-29T23:59:59+00:00 4" ∧
      (∀ pattern ∈ ["c", "r", "U", "Y-m-d H:i:s"],
        read? (format ⟨-62035804801, 0⟩ pattern) = some ⟨-62035804801, 0⟩) ∧
      read? (format ⟨-62035804801, 0⟩ "Y-m-d") = some ⟨-62035891200, 0⟩ :=
  ⟨by decide +kernel, by decide +kernel,
    (round_trip ⟨-62035804801, 0⟩).1 rfl (by decide +kernel) (by decide +kernel)⟩

end Instant

end PageLoom
