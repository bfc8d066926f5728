import PageLoom.Proofs.Text.Trim
import PageLoom.Text.Digits

/-!
# Numerals — the digits of a number spell it

    The decimal digits of a number are read back as the number
    (`decimalValue_toDigits`), and as a number of 64 bits if it is one
    (`word?_toDigits`).
-/

namespace PageLoom.Text

theorem decimalValue_eq_ofDigitChars (digits : List Char) :
    decimalValue digits = Nat.ofDigitChars 10 digits 0 := by
  rw [decimalValue, Nat.ofDigitChars]
  refine congrArg (fun f => digits.foldl f 0) (funext fun n => funext fun c => ?_)
  rw [Nat.mul_comm]
  rfl

/-- **The digits of a number spell it.** -/
theorem decimalValue_toDigits (n : Nat) : decimalValue (Nat.toDigits 10 n) = n := by
  rw [decimalValue_eq_ofDigitChars, Nat.ofDigitChars_toDigits (by decide) (by decide)]

theorem isDigit_of_mem_toDigits {n : Nat} {c : Char} (h : c ∈ Nat.toDigits 10 n) :
    c.isDigit = true :=
  Nat.isDigit_of_mem_toDigits (by decide) (by decide) h

theorem digitValue_le_of_isDigit {c : Char} (h : c.isDigit = true) : digitValue c ≤ 9 := by
  have hnine := (isDigit_iff.mp h).2
  rw [digitValue]
  omega

theorem isBlank_of_isDigit {c : Char} (h : c.isDigit = true) : isBlank c = false := by
  refine Bool.eq_false_iff.mpr fun hblank => ?_
  have halphanum : c.isAlphanum = true := by rw [Char.isAlphanum, h, Bool.or_true]
  exact Bool.false_ne_true ((isAlphanum_of_isBlank hblank).symm.trans halphanum)

/-- Digits are not trimmed. -/
theorem solid_of_digits {digits : List Char} (h : ∀ c ∈ digits, c.isDigit = true) :
    Solid digits :=
  ⟨fun c hc => isBlank_of_isDigit (h c (List.mem_of_head? hc)),
    fun c hc => isBlank_of_isDigit (h c (List.mem_of_getLast? hc))⟩

/-- A row of digits is a number. -/
theorem decimal?_of_digits {digits : List Char} (hne : digits ≠ [])
    (h : ∀ c ∈ digits, c.isDigit = true) : decimal? digits = some (decimalValue digits) := by
  rw [decimal?, List.isEmpty_eq_false_iff.mpr hne, List.all_eq_true.mpr h]
  rfl

theorem decimal?_toDigits (n : Nat) : decimal? (Nat.toDigits 10 n) = some n := by
  rw [decimal?_of_digits Nat.toDigits_ne_nil fun c => isDigit_of_mem_toDigits,
    decimalValue_toDigits]

/-- **The digits of a number are read as a number of 64 bits** if it is one. -/
theorem word?_toDigits (n : Nat) :
    word? (Nat.toDigits 10 n) = if n ≤ greatestWord then some n else none := by
  rw [word?, decimal?_toDigits, Option.filter_some]
  · simp only [decide_eq_true_eq]
  · -- digits do not start with a sign
    intro rest h
    have hdigit : '+'.isDigit = true := isDigit_of_mem_toDigits (n := n) (h ▸ List.mem_cons_self)
    exact absurd hdigit (by decide)

end PageLoom.Text
