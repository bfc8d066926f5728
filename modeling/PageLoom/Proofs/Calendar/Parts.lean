import PageLoom.Calendar.Pattern
import PageLoom.Calendar.Reader
import PageLoom.Proofs.Text.Letters
import PageLoom.Proofs.Text.Numerals

/-!
# Parts of a date — numbers, names and gaps are read as they are written

    A number with leading zeros has as many digits as its width and is read back
    as the number (`number_padded`); so is any row of digits, if the reader takes
    no more digits than there are (`number_append`).  The short names of weekdays
    and months are told apart by the reader (`shortName_weekday`,
    `shortName_month`), and it skips the space between two parts (`gap_space`).
-/

namespace PageLoom

open Text

/-! ## Numbers with leading zeros -/

theorem isDigit_of_mem_padded {width n : Nat} {c : Char} (h : c ∈ padded width n) :
    c.isDigit = true := by
  rcases List.mem_append.mp h with h | h
  · rw [List.eq_of_mem_replicate h]
    decide
  · exact isDigit_of_mem_toDigits h

theorem padded_ne_nil (width n : Nat) : padded width n ≠ [] :=
  List.append_ne_nil_of_right_ne_nil _ Nat.toDigits_ne_nil

/-- **A number that fits its width** has as many digits. -/
theorem length_padded {width n : Nat} (hwidth : 0 < width) (hn : n < Nat.pow 10 width) :
    (padded width n).length = width := by
  have hlength : (Nat.toDigits 10 n).length ≤ width :=
    (Nat.length_toDigits_le_iff (by decide) hwidth).mpr hn
  rw [padded, List.length_append, List.length_replicate, Nat.sub_add_cancel hlength]

/-- Leading zeros do not count. -/
theorem decimalValue_padded (width n : Nat) : decimalValue (padded width n) = n := by
  have hzeros : ∀ k, (List.replicate k '0').foldl (fun n c => n * 10 + digitValue c) 0 = 0 := by
    intro k
    induction k with
    | zero => rfl
    | succ k ih => exact ih
  rw [padded, decimalValue, List.foldl_append, hzeros]
  exact decimalValue_toDigits n

/-- The digits of a natural number are those of the integer. -/
theorem Pattern.integer_ofNat (n : Nat) : Pattern.integer (Int.ofNat n) = Nat.toDigits 10 n := by
  show (toString n).toList = _
  rw [Nat.toString_eq_repr, Nat.repr_eq_ofList_toDigits, String.toList_ofList]

/-- The digits of a negative integer stand after a minus sign. -/
theorem Pattern.integer_neg (n : Nat) :
    Pattern.integer (Int.negSucc n) = '-' :: Nat.toDigits 10 (n + 1) := by
  show ("-" ++ (n + 1).repr).toList = _
  rw [String.toList_append, Nat.repr_eq_ofList_toDigits, String.toList_ofList,
    String.toList_ofList]
  rfl

theorem Pattern.integer_ne_nil (n : Int) : Pattern.integer n ≠ [] := by
  cases n with
  | ofNat n =>
      rw [integer_ofNat]
      exact Nat.toDigits_ne_nil
  | negSucc n =>
      rw [integer_neg]
      exact List.cons_ne_nil _ _

theorem paddedYear_ne_nil (year : Int) : paddedYear year ≠ [] := by
  rw [paddedYear]
  split
  · exact padded_ne_nil _ _
  · exact List.cons_ne_nil _ _

/-- A year of four digits carries no sign. -/
theorem paddedYear_eq {year : Int} (h : 0 ≤ year ∧ year ≤ 9999) :
    paddedYear year = padded 4 year.toNat := by
  rw [paddedYear, decide_eq_true h.1, decide_eq_true h.2]
  rfl

theorem Pattern.integer_eq {year : Int} (h : 0 ≤ year) :
    integer year = Nat.toDigits 10 year.toNat := by
  obtain ⟨n, rfl⟩ := Int.eq_ofNat_of_zero_le h
  exact integer_ofNat n

namespace Stamp

/-! ## Reading numbers -/

/-- A text that does not go on with a digit. -/
def EndsDigits (rest : List Char) : Prop :=
  ∀ c, rest.head? = some c → c.isDigit = false

theorem endsDigits_cons {c : Char} (h : c.isDigit = false) (rest : List Char) :
    EndsDigits (c :: rest) := by
  rintro d ⟨rfl⟩
  exact h

/-- The digits that a reader of at most `most` digits sees. -/
theorem takeWhile_take_append {digits rest : List Char} {most : Nat}
    (hdigits : ∀ c ∈ digits, c.isDigit = true)
    (hmost : digits.length = most ∨ digits.length ≤ most ∧ EndsDigits rest) :
    ((digits ++ rest).take most).takeWhile Char.isDigit = digits := by
  have hle : digits.length ≤ most := hmost.elim Nat.le_of_eq And.left
  have hnone : (rest.take (most - digits.length)).takeWhile Char.isDigit = [] := by
    rcases hmost with rfl | ⟨-, hends⟩
    · rw [Nat.sub_self]
      rfl
    · cases htake : rest.take (most - digits.length) with
      | nil => rfl
      | cons c more =>
          have hhead : rest.head? = some c := by
            rw [← List.take_append_drop (most - digits.length) rest, htake]
            rfl
          rw [List.takeWhile_cons, hends c hhead]
          rfl
  rw [List.take_append, List.take_of_length_le hle, List.takeWhile_append_of_pos hdigits, hnone,
    List.append_nil]

/-- **A row of digits is read**, if it is long enough and the reader does not go
    on beyond it. -/
theorem number_append {digits rest : List Char} {least most : Nat} (hne : digits ≠ [])
    (hdigits : ∀ c ∈ digits, c.isDigit = true) (hleast : least ≤ digits.length)
    (hmost : digits.length = most ∨ digits.length ≤ most ∧ EndsDigits rest)
    (hvalue : decimalValue digits < Nat.pow 2 63) :
    number least most (digits ++ rest) = some (decimalValue digits, rest) := by
  rw [number, takeWhile_take_append hdigits hmost]
  have hshort : ¬digits.length < least := Nat.not_lt.mpr hleast
  have hlarge : ¬Nat.pow 2 63 ≤ decimalValue digits := Nat.not_le.mpr hvalue
  rw [List.drop_left, decide_eq_false hshort, List.isEmpty_eq_false_iff.mpr hne,
    decide_eq_false hlarge]
  rfl

/-- **A number with leading zeros is read back**, if the reader does not go on
    beyond it. -/
theorem number_padded {least most width n : Nat} {rest : List Char} (hwidth : 0 < width)
    (hleast : least ≤ width) (hmost : width = most ∨ width ≤ most ∧ EndsDigits rest)
    (hn : n < Nat.pow 10 width) (hsmall : n < Nat.pow 2 63) :
    number least most (padded width n ++ rest) = some (n, rest) := by
  have hlength := length_padded hwidth hn
  have hread := number_append (padded_ne_nil width n)
    (fun c => isDigit_of_mem_padded) (hlength.symm ▸ hleast) (hlength.symm ▸ hmost)
    (by rw [decimalValue_padded]; exact hsmall)
  rwa [decimalValue_padded] at hread

/-- **What a number is read from**: one digit at least, and no other characters. -/
theorem exists_of_number {least most n : Nat} {cs rest : List Char}
    (h : number least most cs = some (n, rest)) :
    ∃ digits, cs = digits ++ rest ∧ digits ≠ [] ∧ ∀ c ∈ digits, c.isDigit = true := by
  rw [number] at h
  split at h
  · cases h
  · rename_i hread
    obtain ⟨-, rfl⟩ := Prod.mk.inj (Option.some.inj h)
    refine ⟨(cs.take most).takeWhile Char.isDigit, ?_, ?_, List.all_eq_true.mp List.all_takeWhile⟩
    · have hprefix := (List.takeWhile_prefix Char.isDigit).trans (List.take_prefix most cs)
      exact (List.prefix_iff_eq_append.mp hprefix).symm
    · rintro hnil
      exact hread (by rw [hnil]; simp)

/-- A text that does not start with a digit starts with no number. -/
theorem number_eq_none {least most : Nat} {cs : List Char} (h : EndsDigits cs) :
    number least most cs = none := by
  refine Option.eq_none_iff_forall_ne_some.mpr fun ⟨n, rest⟩ hread => ?_
  obtain ⟨digits, rfl, hne, hdigits⟩ := exists_of_number hread
  cases digits with
  | nil => exact hne rfl
  | cons c digits =>
      have hdigit := hdigits c List.mem_cons_self
      rw [h c rfl] at hdigit
      cases hdigit

/-- Two rows of digits in front of the same text are the same. -/
theorem digits_append_inj {a b s t : List Char} {x y : Char}
    (ha : ∀ c ∈ a, c.isDigit = true) (hb : ∀ c ∈ b, c.isDigit = true)
    (hx : x.isDigit = false) (hy : y.isDigit = false) (h : a ++ x :: s = b ++ y :: t) :
    a = b ∧ x = y ∧ s = t := by
  have htake : ∀ {digits : List Char} {c : Char} {rest : List Char},
      (∀ d ∈ digits, d.isDigit = true) → c.isDigit = false →
        (digits ++ c :: rest).takeWhile Char.isDigit = digits := by
    intro digits c rest hdigits hc
    rw [List.takeWhile_append_of_pos hdigits, List.takeWhile_cons, hc]
    exact List.append_nil digits
  have hab : a = b := by rw [← htake ha hx, h, htake hb hy]
  obtain ⟨hxy, hst⟩ := List.cons.inj (List.append_cancel_left (hab ▸ h))
  exact ⟨hab, hxy, hst⟩

/-- The number of a year goes on to the dash after it, if it is followed by
    anything but a digit. -/
theorem number_integer {least most n : Nat} {year : Int} {x : Char} {rest more : List Char}
    (h : number least most (Pattern.integer year ++ '-' :: rest) = some (n, x :: more))
    (hx : x.isDigit = false) : x = '-' ∧ more = rest := by
  cases year with
  | ofNat year =>
      obtain ⟨digits, hsplit, -, hdigits⟩ := exists_of_number h
      rw [Pattern.integer_ofNat] at hsplit
      obtain ⟨-, rfl, rfl⟩ := digits_append_inj (fun c => isDigit_of_mem_toDigits) hdigits
        (by decide) hx hsplit
      exact ⟨rfl, rfl⟩
  | negSucc year =>
      rw [Pattern.integer_neg, List.cons_append,
        number_eq_none (endsDigits_cons (by decide) _)] at h
      cases h

/-! ## Names and gaps -/

theorem mark_cons (x : Char) (rest : List Char) : mark x (x :: rest) = some rest :=
  if_pos rfl

theorem mark_eq_some {x : Char} {cs rest : List Char} (h : mark x cs = some rest) :
    cs = x :: rest := by
  cases cs with
  | nil => cases h
  | cons c cs =>
      rw [mark] at h
      split at h
      · rename_i hc
        rw [hc, Option.some.inj h]
      · cases h

/-- A short name starts with a letter, as the name does. -/
theorem isAlpha_of_head_short (names : List String) {place : Nat} (hplace : place < names.length)
    (hnames : (names.all fun name => name.toList.head?.any Char.isAlpha) = true)
    {rest : List Char} {c : Char}
    (h : (Pattern.short ((names[place]?).getD "") ++ rest).head? = some c) : c.isAlpha = true := by
  have hname := List.all_eq_true.mp hnames _ (List.getElem_mem hplace)
  rw [List.getElem?_eq_getElem hplace, Option.getD_some, Pattern.short] at h
  cases hletters : names[place].toList with
  | nil =>
      rw [hletters] at hname
      cases hname
  | cons d more =>
      rw [hletters] at h hname
      obtain rfl : d = c := Option.some.inj h
      exact hname

/-- **The weekdays are told apart** by three letters. -/
theorem shortName_weekday {day : Nat} (h : day < 7) (rest : List Char) :
    shortName Date.weekdayNames
      (Pattern.short ((Date.weekdayNames[day]?).getD "") ++ rest) = some (day, rest) := by
  match day, h with
  | 0, _ | 1, _ | 2, _ | 3, _ | 4, _ | 5, _ | 6, _ => rfl

/-- **The months are told apart** by three letters. -/
theorem shortName_month {month : Nat} (h : month < 12) (rest : List Char) :
    shortName Date.monthNames
      (Pattern.short ((Date.monthNames[month]?).getD "") ++ rest) = some (month, rest) := by
  match month, h with
  | 0, _ | 1, _ | 2, _ | 3, _ | 4, _ | 5, _ | 6, _ | 7, _ | 8, _ | 9, _ | 10, _ | 11, _ => rfl

theorem isBlank_of_isAlpha {c : Char} (h : c.isAlpha = true) : isBlank c = false := by
  refine Bool.eq_false_iff.mpr fun hblank => ?_
  have halphanum : c.isAlphanum = true := by rw [Char.isAlphanum, h, Bool.true_or]
  exact Bool.false_ne_true ((isAlphanum_of_isBlank hblank).symm.trans halphanum)

/-- No weekday starts with anything but a letter. -/
theorem shortName_weekday_eq_none {cs : List Char}
    (h : ∀ c, cs.head? = some c → c.isAlpha = false) : shortName Date.weekdayNames cs = none := by
  have hletters : ∀ name ∈ Date.weekdayNames.map
      (fun name => shortName.lowerLetters (name.toList.take 3)),
      (name.head?.any Char.isAlpha) = true := by decide
  have hplace : (Date.weekdayNames.map
      (fun name => shortName.lowerLetters (name.toList.take 3))).idxOf?
        (shortName.lowerLetters (cs.take 3)) = none := by
    refine List.idxOf?_eq_none_iff.mpr fun hmem => ?_
    have hletter := hletters _ hmem
    cases cs with
    | nil => cases hletter
    | cons c cs =>
        have hc : c.toLower.isAlpha = true := hletter
        rw [toLower_of_not_isAlpha (h c rfl), h c rfl] at hc
        cases hc
  show Option.bind _ _ = none
  rw [hplace, Option.bind_none]

/-- A single space is a gap. -/
theorem gap_space {rest : List Char} (h : ∀ c, rest.head? = some c → isBlank c = false) :
    gap (' ' :: rest) = some rest := by
  have htrim : trimStart (' ' :: rest) = rest := trimStart_of_head h
  rw [gap, htrim]
  exact if_pos (Nat.lt_succ_self _)

/-- A gap starts with white space. -/
theorem exists_of_gap {cs rest : List Char} (h : gap cs = some rest) :
    ∃ c more, cs = c :: more ∧ isBlank c = true := by
  cases cs with
  | nil => cases h
  | cons c cs =>
      refine ⟨c, cs, rfl, Bool.of_not_eq_false fun hc => ?_⟩
      have htrim : trimStart (c :: cs) = c :: cs :=
        trimStart_of_head (by rintro d ⟨rfl⟩; exact hc)
      rw [gap, htrim, if_neg (Nat.lt_irrefl _)] at h
      cases h

end Stamp

end PageLoom
