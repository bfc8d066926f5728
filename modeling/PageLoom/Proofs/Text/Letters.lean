/-!
# Letters — classes of ASCII characters

    Capital letters, small letters and digits are three ranges of codes that do
    not meet.  Lower case changes capital letters only (`toLower_of_not_isUpper`),
    so it keeps small letters and digits; and no digit is a letter.
-/

namespace PageLoom.Text

variable {c : Char}

theorem isUpper_iff : c.isUpper = true ↔ 65 ≤ c.toNat ∧ c.toNat ≤ 90 := by
  show decide (_ ∧ _) = true ↔ _
  rw [decide_eq_true_iff]
  exact Iff.rfl

theorem isLower_iff : c.isLower = true ↔ 97 ≤ c.toNat ∧ c.toNat ≤ 122 := by
  show (decide _ && decide _) = true ↔ _
  rw [Bool.and_eq_true_iff, decide_eq_true_iff, decide_eq_true_iff]
  exact Iff.rfl

theorem isDigit_iff : c.isDigit = true ↔ 48 ≤ c.toNat ∧ c.toNat ≤ 57 := by
  show (decide _ && decide _) = true ↔ _
  rw [Bool.and_eq_true_iff, decide_eq_true_iff, decide_eq_true_iff]
  exact Iff.rfl

theorem isAlphanum_iff :
    c.isAlphanum = true ↔
      ((65 ≤ c.toNat ∧ c.toNat ≤ 90) ∨ (97 ≤ c.toNat ∧ c.toNat ≤ 122)) ∨
        (48 ≤ c.toNat ∧ c.toNat ≤ 57) := by
  show (c.isUpper || c.isLower || c.isDigit) = true ↔ _
  rw [Bool.or_eq_true_iff, Bool.or_eq_true_iff, isUpper_iff, isLower_iff, isDigit_iff]

theorem isAlphanum_of_isLower (h : c.isLower = true) : c.isAlphanum = true :=
  isAlphanum_iff.mpr (.inl (.inr (isLower_iff.mp h)))

theorem isAlphanum_of_isDigit (h : c.isDigit = true) : c.isAlphanum = true :=
  isAlphanum_iff.mpr (.inr (isDigit_iff.mp h))

/-- **Lower case** changes capital letters only. -/
theorem toLower_of_not_isUpper (h : c.isUpper = false) : c.toLower = c := by
  refine dif_neg fun hupper => ?_
  have htrue : c.isUpper = true := decide_eq_true hupper
  exact Bool.false_ne_true (h.symm.trans htrue)

theorem toLower_of_isLower (h : c.isLower = true) : c.toLower = c := by
  refine toLower_of_not_isUpper (Bool.eq_false_iff.mpr fun hupper => ?_)
  have hlow := (isLower_iff.mp h).1
  have hhigh := (isUpper_iff.mp hupper).2
  omega

theorem isAlpha_of_isDigit (h : c.isDigit = true) : c.isAlpha = false := by
  have hhigh := (isDigit_iff.mp h).2
  refine Bool.or_eq_false_iff.mpr
    ⟨Bool.eq_false_iff.mpr fun hupper => ?_, Bool.eq_false_iff.mpr fun hlower => ?_⟩
  · have hlow := (isUpper_iff.mp hupper).1
    omega
  · have hlow := (isLower_iff.mp hlower).1
    omega

theorem isDigit_of_isAlpha (h : c.isAlpha = true) : c.isDigit = false :=
  Bool.eq_false_iff.mpr fun hdigit =>
    Bool.false_ne_true ((isAlpha_of_isDigit hdigit).symm.trans h)

/-- Only letters have a letter case. -/
theorem toLower_of_not_isAlpha (h : c.isAlpha = false) : c.toLower = c :=
  toLower_of_not_isUpper (Bool.or_eq_false_iff.mp h).1

theorem toLower_of_isDigit (h : c.isDigit = true) : c.toLower = c :=
  toLower_of_not_isAlpha (isAlpha_of_isDigit h)

end PageLoom.Text
