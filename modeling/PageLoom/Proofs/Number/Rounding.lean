import Mathlib.Algebra.Order.Field.Power
import Mathlib.Algebra.Order.Ring.Unbundled.Rat
import Mathlib.Tactic.Linarith
import Mathlib.Tactic.NormNum
import Mathlib.Tactic.Positivity
import Mathlib.Tactic.Ring
import PageLoom.Number.Binary64

/-!
# Rounding — the nearest double keeps the order

    A double is found in three steps: an exponent that puts the ratio between
    `2^52` and `2^53` (`exists_exponentFor_eq`), the nearest natural to the
    ratio at that exponent (`roundHalfEven_eq`), and a check of the range.
    Each step keeps the order of ratios, and so does the whole
    (`rounded_mono`): a ratio that is no smaller than another is rounded to a
    double that is no smaller, and is in range if the greater of the two is
    (`ofRatio_mono`).  Nothing is said of how near the double is.
-/

namespace PageLoom.Binary64

/-! ## The exponent -/

theorem two_pow_mul_zpow (k : Nat) (e : Int) :
    ((2 ^ k : Nat) : ℚ) * 2 ^ e = 2 ^ ((k : Int) + e) := by
  rw [Nat.cast_pow, Nat.cast_ofNat, zpow_add₀ two_ne_zero, zpow_natCast]

/-- A number is at least the power of two with its bit length. -/
theorem zpow_log2_le {n : Nat} (hn : n ≠ 0) : (2 : ℚ) ^ (n.log2 : Int) ≤ n := by
  have h : 2 ^ n.log2 ≤ n := Nat.log2_self_le hn
  exact_mod_cast h

/-- It is below the next power of two. -/
theorem lt_zpow_log2 (n : Nat) : (n : ℚ) < 2 ^ ((n.log2 : Int) + 1) := by
  have h : n < 2 ^ (n.log2 + 1) := Nat.lt_log2_self
  exact_mod_cast h

/-- A ratio is at least a power of two that the lengths of its parts give. -/
theorem zpow_le_div {num den : Nat} (hnum : num ≠ 0) (hden : 0 < den) :
    (2 : ℚ) ^ ((num.log2 : Int) - den.log2 - 1) ≤ num / den := by
  rw [le_div_iff₀ (Nat.cast_pos.mpr hden)]
  calc (2 : ℚ) ^ ((num.log2 : Int) - den.log2 - 1) * den
      ≤ 2 ^ ((num.log2 : Int) - den.log2 - 1) * 2 ^ ((den.log2 : Int) + 1) :=
        mul_le_mul_of_nonneg_left (lt_zpow_log2 den).le (by positivity)
    _ = 2 ^ (num.log2 : Int) := by
        rw [← zpow_add₀ two_ne_zero]
        congr 1
        omega
    _ ≤ num := zpow_log2_le hnum

/-- It is less than four times that power. -/
theorem div_lt_zpow (num : Nat) {den : Nat} (hden : 0 < den) :
    (num / den : ℚ) < 2 ^ ((num.log2 : Int) - den.log2 + 1) := by
  rw [div_lt_iff₀ (Nat.cast_pos.mpr hden)]
  calc (num : ℚ) < 2 ^ ((num.log2 : Int) + 1) := lt_zpow_log2 num
    _ = 2 ^ ((num.log2 : Int) - den.log2 + 1) * 2 ^ (den.log2 : Int) := by
        rw [← zpow_add₀ two_ne_zero]
        congr 1
        omega
    _ ≤ 2 ^ ((num.log2 : Int) - den.log2 + 1) * den :=
        mul_le_mul_of_nonneg_left (zpow_log2_le hden.ne') (by positivity)

/-- Scaling divides the fraction by a power of two. -/
theorem div_scaleDown (num den : Nat) (e : Int) :
    ((scaleDown num den e).1 : ℚ) / (scaleDown num den e).2 = num / den / 2 ^ e := by
  obtain ⟨n, rfl | rfl⟩ := e.eq_nat_or_neg
  · simp [scaleDown, div_div]
  · simp [scaleDown]
    ring

theorem scaleDown_pos {num den : Nat} (hden : 0 < den) (e : Int) : 0 < (scaleDown num den e).2 :=
  Nat.mul_pos hden (Nat.pow_pos Nat.two_pos)

theorem nat_div_lt_iff {n d : Nat} (hd : 0 < d) (m : Nat) : n / d < m ↔ (n / d : ℚ) < m := by
  rw [Nat.div_lt_iff_lt_mul hd, div_lt_iff₀ (Nat.cast_pos.mpr hd)]
  exact_mod_cast Iff.rfl

/-- **The exponent of a ratio** leaves it a significand of 53 bits, unless it is
    raised to the least exponent. -/
theorem exists_exponentFor_eq {num den : Nat} (hnum : num ≠ 0) (hden : 0 < den) :
    ∃ e, exponentFor num den = max e leastExponent ∧
      (2 : ℚ) ^ (52 + e) ≤ num / den ∧ (num / den : ℚ) < 2 ^ (53 + e) := by
  have hlow := zpow_le_div hnum hden
  have hhigh := div_lt_zpow num hden
  rw [exponentFor]
  dsimp only
  generalize hguess : (num.log2 : Int) - den.log2 - 53 = guess
  rw [show (num.log2 : Int) - den.log2 - 1 = 52 + guess by omega] at hlow
  rw [show (num.log2 : Int) - den.log2 + 1 = 53 + (guess + 1) by omega] at hhigh
  -- the guess is right or one too small
  have hright : (scaleDown num den guess).1 / (scaleDown num den guess).2 < Nat.pow 2 53 ↔
      (num / den : ℚ) < 2 ^ (53 + guess) := by
    rw [nat_div_lt_iff (scaleDown_pos hden guess), div_scaleDown, div_lt_iff₀ (by positivity)]
    exact iff_of_eq (congrArg _ (two_pow_mul_zpow 53 guess))
  refine ⟨_, rfl, ?_⟩
  split
  · rename_i h
    exact ⟨hlow, hright.mp h⟩
  · rename_i h
    refine ⟨?_, hhigh⟩
    rw [show 52 + (guess + 1) = 53 + guess by omega]
    exact not_lt.mp (mt hright.mpr h)

/-- **The exponent of a fraction** is the least one, from that of the smallest
    doubles up, at which it has no more than 53 bits. -/
theorem exponentFor_le_iff {num den : Nat} (hnum : num ≠ 0) (hden : 0 < den) {e : Int} :
    exponentFor num den ≤ e ↔ leastExponent ≤ e ∧ (num / den : ℚ) < 2 ^ (53 + e) := by
  obtain ⟨e', he', hlow, hhigh⟩ := exists_exponentFor_eq hnum hden
  rw [he', max_le_iff, and_comm]
  refine and_congr_right fun _ => ⟨fun h => ?_, fun h => ?_⟩
  · exact hhigh.trans_le (zpow_le_zpow_right₀ one_le_two (by omega))
  · have hbase : (1 : ℚ) < 2 := one_lt_two
    have := (zpow_lt_zpow_iff_right₀ hbase).mp (hlow.trans_lt h)
    omega

/-! ## The significand -/

/-- When rounding to a natural goes up. -/
theorem roundHalfEven_eq (n d : Nat) :
    roundHalfEven n d =
      if d < 2 * (n % d) ∨ 2 * (n % d) = d ∧ n / d % 2 = 1 then n / d + 1 else n / d := by
  unfold roundHalfEven
  dsimp only
  split
  · rw [if_neg (by omega)]
  split
  · rw [if_pos (by omega)]
  split
  · rename_i heven
    rw [if_neg (by rw [beq_iff_eq] at heven; omega)]
  · rename_i hodd
    rw [if_pos (by rw [beq_iff_eq] at hodd; omega)]

/-- **Rounding to a natural is monotone.** -/
theorem roundHalfEven_mono {n d n' d' : Nat} (hd : 0 < d) (hd' : 0 < d')
    (h : (n / d : ℚ) ≤ n' / d') : roundHalfEven n d ≤ roundHalfEven n' d' := by
  have hcross : n * d' ≤ n' * d := by
    rw [div_le_div_iff₀ (Nat.cast_pos.mpr hd) (Nat.cast_pos.mpr hd')] at h
    exact_mod_cast h
  have hquot : n / d ≤ n' / d' := by
    rw [Nat.le_div_iff_mul_le hd']
    refine Nat.le_of_mul_le_mul_right ?_ hd
    calc n / d * d' * d = n / d * d * d' := Nat.mul_right_comm _ _ _
      _ ≤ n * d' := Nat.mul_le_mul_right d' (Nat.div_mul_le_self n d)
      _ ≤ n' * d := hcross
  rw [roundHalfEven_eq, roundHalfEven_eq]
  rcases hquot.lt_or_eq with hlt | heq
  · split_ifs <;> omega
  · -- between the same naturals the remainders decide
    have hrest : n % d * d' ≤ n' % d' * d := by
      rw [← Nat.div_add_mod n d, ← Nat.div_add_mod n' d', heq] at hcross
      linarith
    have hup : (d < 2 * (n % d) ∨ 2 * (n % d) = d ∧ n / d % 2 = 1) →
        (d' < 2 * (n' % d') ∨ 2 * (n' % d') = d' ∧ n' / d' % 2 = 1) := by
      rintro (habove | ⟨htie, hodd⟩)
      · refine .inl (Nat.lt_of_mul_lt_mul_left ?_ (a := d))
        calc d * d' < 2 * (n % d) * d' := Nat.mul_lt_mul_of_pos_right habove hd'
          _ ≤ d * (2 * (n' % d')) := by linarith
      · have hle : d' ≤ 2 * (n' % d') := by
          refine Nat.le_of_mul_le_mul_left ?_ hd
          calc d * d' = 2 * (n % d) * d' := by rw [htie]
            _ ≤ d * (2 * (n' % d')) := by linarith
        rcases hle.lt_or_eq with hlt | htie'
        · exact .inl hlt
        · exact .inr ⟨htie'.symm, heq ▸ hodd⟩
    rw [heq] at hup ⊢
    split_ifs with h1 h2
    · exact le_rfl
    · exact absurd (hup h1) h2
    · exact Nat.le_succ _
    · exact le_rfl

/-- Naturals are not rounded. -/
theorem roundHalfEven_one (m : Nat) : roundHalfEven m 1 = m := by
  rw [roundHalfEven_eq, Nat.mod_one, Nat.div_one]
  rfl

theorem le_roundHalfEven {m n d : Nat} (hd : 0 < d) (h : (m : ℚ) ≤ n / d) :
    m ≤ roundHalfEven n d := by
  rw [← roundHalfEven_one m]
  exact roundHalfEven_mono one_pos hd (by rwa [Nat.cast_one, div_one])

theorem roundHalfEven_le {m n d : Nat} (hd : 0 < d) (h : (n / d : ℚ) ≤ m) :
    roundHalfEven n d ≤ m := by
  rw [← roundHalfEven_one m]
  exact roundHalfEven_mono hd one_pos (by rwa [Nat.cast_one, div_one])

/-- The significand to which a ratio is rounded, before a carry. -/
def roundedSignificand (num den : Nat) : Nat :=
  roundHalfEven (scaleDown num den (exponentFor num den)).1
    (scaleDown num den (exponentFor num den)).2

/-- A ratio rounded to 53 bits, in an unbounded range. -/
def rounded (num den : Nat) : ℚ :=
  roundedSignificand num den * 2 ^ exponentFor num den

section

variable {num den : Nat} (hnum : num ≠ 0) (hden : 0 < den)

include hnum hden

theorem leastExponent_le_exponentFor : leastExponent ≤ exponentFor num den :=
  ((exponentFor_le_iff hnum hden).mp le_rfl).1

/-- A significand has at most 53 bits, or is the power after them. -/
theorem roundedSignificand_le : roundedSignificand num den ≤ 2 ^ 53 := by
  refine roundHalfEven_le (scaleDown_pos hden _) ?_
  rw [div_scaleDown, div_le_iff₀ (by positivity), two_pow_mul_zpow]
  exact ((exponentFor_le_iff hnum hden).mp le_rfl).2.le

/-- Above the least exponent it has all of them. -/
theorem le_roundedSignificand (h : leastExponent < exponentFor num den) :
    2 ^ 52 ≤ roundedSignificand num den := by
  obtain ⟨e, he, hlow, -⟩ := exists_exponentFor_eq hnum hden
  obtain rfl : exponentFor num den = e := by
    rw [he] at h ⊢
    exact max_eq_left ((lt_max_iff.mp h).resolve_right (lt_irrefl _)).le
  refine le_roundHalfEven (scaleDown_pos hden _) ?_
  rw [div_scaleDown, le_div_iff₀ (by positivity), two_pow_mul_zpow]
  exact hlow

/-- **Rounding is monotone.** -/
theorem rounded_mono {num' den' : Nat} (hnum' : num' ≠ 0) (hden' : 0 < den')
    (h : (num / den : ℚ) ≤ num' / den') : rounded num den ≤ rounded num' den' := by
  have hexponent : exponentFor num den ≤ exponentFor num' den' := by
    have hle := (exponentFor_le_iff hnum' hden').mp le_rfl
    exact (exponentFor_le_iff hnum hden).mpr ⟨hle.1, h.trans_lt hle.2⟩
  rcases hexponent.lt_or_eq with hlt | heq
  · -- the significands of two exponents do not overlap
    have hupper := roundedSignificand_le hnum hden
    have hlower := le_roundedSignificand hnum' hden'
      ((leastExponent_le_exponentFor hnum hden).trans_lt hlt)
    calc rounded num den
        ≤ (2 ^ 53 : Nat) * 2 ^ exponentFor num den :=
          mul_le_mul_of_nonneg_right (Nat.cast_le.mpr hupper) (by positivity)
      _ = 2 ^ (53 + exponentFor num den) := two_pow_mul_zpow 53 _
      _ ≤ 2 ^ (52 + exponentFor num' den') := zpow_le_zpow_right₀ one_le_two (by omega)
      _ = (2 ^ 52 : Nat) * 2 ^ exponentFor num' den' := (two_pow_mul_zpow 52 _).symm
      _ ≤ rounded num' den' :=
          mul_le_mul_of_nonneg_right (Nat.cast_le.mpr hlower) (by positivity)
  · rw [rounded, rounded, roundedSignificand, roundedSignificand, heq]
    refine mul_le_mul_of_nonneg_right (Nat.cast_le.mpr ?_) (by positivity)
    refine roundHalfEven_mono (scaleDown_pos hden _) (scaleDown_pos hden' _) ?_
    rw [div_scaleDown, div_scaleDown]
    exact div_le_div_of_nonneg_right h (by positivity)

end

/-! ## Doubles -/

/-- The magnitude of a double. -/
def size (x : Binary64) : ℚ :=
  x.significand * 2 ^ x.exponent

/-- The magnitude of a double is its size as a fraction. -/
theorem div_magnitude (x : Binary64) : (x.magnitude.1 : ℚ) / x.magnitude.2 = x.size := by
  obtain ⟨negative, m, e⟩ := x
  rw [size, magnitude]
  obtain ⟨n, rfl | rfl⟩ := e.eq_nat_or_neg
  · simp
  · simp [div_eq_mul_inv]

theorem magnitude_pos (x : Binary64) : 0 < x.magnitude.2 :=
  Nat.pow_pos Nat.two_pos

/-- A double that is a natural number: its ratio divides evenly. -/
theorem size_eq_natCast_iff {x : Binary64} {n : Nat} :
    x.size = n ↔ x.magnitude.1 % x.magnitude.2 = 0 ∧ x.magnitude.1 / x.magnitude.2 = n := by
  rw [← div_magnitude, div_eq_iff (Nat.cast_ne_zero.mpr (magnitude_pos x).ne')]
  constructor
  · intro h
    have hmul : x.magnitude.1 = n * x.magnitude.2 := by exact_mod_cast h
    rw [hmul]
    exact ⟨Nat.mul_mod_left _ _, Nat.mul_div_cancel _ (magnitude_pos x)⟩
  · rintro ⟨hmod, rfl⟩
    have hmul := Nat.div_mul_cancel (Nat.dvd_of_mod_eq_zero hmod)
    exact_mod_cast hmul.symm

/-- What is found for a ratio: a double of this sign, with the ratio rounded to 53
    bits as its magnitude, or none beyond the finite range. -/
def Found (negative : Bool) (value : ℚ) : Option Binary64 → Prop
  | some x => value < 2 ^ (1024 : Int) ∧
      x.size = value ∧ x.negative = negative ∧ x.significand < 2 ^ 53
  | none => 2 ^ (1024 : Int) ≤ value

/-- The range, checked once the carry is done. -/
theorem found_of_lt (negative : Bool) {m : Nat} {e : Int} (hlt : m < 2 ^ 53)
    (hge : leastExponent < e → 2 ^ 52 ≤ m) :
    Found negative (m * 2 ^ e) (if e > greatestExponent then none
      else if m = 0 then some (zero negative) else some ⟨negative, m, e⟩) := by
  unfold leastExponent at hge
  unfold greatestExponent
  split
  · rename_i hrange
    have hm := hge (by omega)
    calc (2 : ℚ) ^ (1024 : Int) ≤ 2 ^ (52 + e) := zpow_le_zpow_right₀ one_le_two (by omega)
      _ = (2 ^ 52 : Nat) * 2 ^ e := (two_pow_mul_zpow 52 e).symm
      _ ≤ m * 2 ^ e := mul_le_mul_of_nonneg_right (Nat.cast_le.mpr hm) (by positivity)
  · rename_i hrange
    have hbelow : (m * 2 ^ e : ℚ) < 2 ^ (1024 : Int) := by
      calc (m * 2 ^ e : ℚ) < (2 ^ 53 : Nat) * 2 ^ e :=
            mul_lt_mul_of_pos_right (Nat.cast_lt.mpr hlt) (by positivity)
        _ = 2 ^ (53 + e) := two_pow_mul_zpow 53 e
        _ ≤ 2 ^ (1024 : Int) := zpow_le_zpow_right₀ one_le_two (by omega)
    split
    · rename_i hzero
      subst hzero
      refine ⟨hbelow, ?_, rfl, Nat.two_pow_pos 53⟩
      rw [size, zero, Nat.cast_zero, zero_mul, zero_mul]
    · exact ⟨hbelow, rfl, rfl, hlt⟩

/-- **What rounding to a double finds.** -/
theorem found_ofRatio (negative : Bool) {num den : Nat} (hnum : num ≠ 0) (hden : 0 < den) :
    Found negative (rounded num den) (ofRatio negative num den) := by
  have hle := roundedSignificand_le hnum hden
  have hge := le_roundedSignificand hnum hden
  rw [ofRatio, if_neg hnum, rounded]
  dsimp only
  rw [show roundHalfEven _ _ = roundedSignificand num den from rfl]
  generalize exponentFor num den = e at *
  generalize roundedSignificand num den = m at *
  by_cases hcarry : m = 2 ^ 53
  · -- a carry leaves the value as it is
    have hvalue : (m * 2 ^ e : ℚ) = (2 ^ 52 : Nat) * 2 ^ (e + 1) := by
      rw [hcarry, two_pow_mul_zpow, two_pow_mul_zpow]
      congr 1
      omega
    rw [hvalue]
    simp only [show m = Nat.pow 2 53 from hcarry, if_pos]
    exact found_of_lt negative (by decide) fun _ => le_rfl
  · have hne : ¬m = Nat.pow 2 53 := hcarry
    simp only [if_neg hne]
    exact found_of_lt negative (lt_of_le_of_ne hle hcarry) hge

/-- **Rounding to a double is monotone**: what a ratio is rounded to is in range if a
    greater ratio's double is, and is no greater. -/
theorem ofRatio_mono (negative : Bool) {negative' : Bool} {num den num' den' : Nat}
    {x' : Binary64} (hnum : num ≠ 0) (hden : 0 < den) (hnum' : num' ≠ 0) (hden' : 0 < den')
    (h : (num / den : ℚ) ≤ num' / den') (hfound' : ofRatio negative' num' den' = some x') :
    ∃ x, ofRatio negative num den = some x ∧ x.size ≤ x'.size := by
  have hmono := rounded_mono hnum hden hnum' hden' h
  have hspec := found_ofRatio negative hnum hden
  have hspec' := found_ofRatio negative' hnum' hden'
  rw [hfound'] at hspec'
  obtain ⟨hrange', hsize', -⟩ := hspec'
  cases hfound : ofRatio negative num den with
  | none =>
      rw [hfound] at hspec
      exact absurd (hmono.trans_lt hrange') (not_lt.mpr hspec)
  | some x =>
      rw [hfound] at hspec
      refine ⟨x, rfl, ?_⟩
      rw [hspec.2.1, hsize']
      exact hmono

/-- The sign and the length of what is found. -/
theorem of_ofRatio {negative : Bool} {num den : Nat} {x : Binary64} (hnum : num ≠ 0)
    (hden : 0 < den) (h : ofRatio negative num den = some x) :
    x.negative = negative ∧ x.significand < 2 ^ 53 := by
  have hfound := found_ofRatio negative hnum hden
  rw [h] at hfound
  exact hfound.2.2

/-- **Great doubles are integers.** -/
theorem exists_size_eq_natCast {x : Binary64} (hlt : x.significand < 2 ^ 53)
    (h : 2 ^ 53 ≤ x.size) : ∃ n : Nat, x.size = n := by
  have hexponent : 0 ≤ x.exponent := by
    by_contra hneg
    refine absurd h (not_le.mpr ?_)
    calc x.size ≤ x.significand * 2 ^ (0 : Int) :=
          mul_le_mul_of_nonneg_left (zpow_le_zpow_right₀ one_le_two (by omega)) (Nat.cast_nonneg _)
      _ = x.significand := by rw [zpow_zero, mul_one]
      _ < (2 ^ 53 : Nat) := Nat.cast_lt.mpr hlt
      _ = 2 ^ 53 := by norm_num
  obtain ⟨e, he⟩ := Int.eq_ofNat_of_zero_le hexponent
  refine ⟨x.significand * 2 ^ e, ?_⟩
  rw [size, he, zpow_natCast, Nat.cast_mul, Nat.cast_pow, Nat.cast_ofNat]

theorem natCast_div_mono {s s' : Nat} (h : s ≤ s') : ((s : ℚ) / (1 : Nat)) ≤ s' / (1 : Nat) := by
  rw [Nat.cast_one, div_one, div_one]
  exact Nat.cast_le.mpr h

/-- Naturals are rounded to at least one. -/
theorem one_le_size {negative : Bool} {n : Nat} {x : Binary64} (hn : n ≠ 0)
    (h : ofRatio negative n 1 = some x) : 1 ≤ x.size := by
  have hone : ofRatio false 1 1 = some ⟨false, 2 ^ 52, -52⟩ := by decide
  obtain ⟨y, hy, hle⟩ := ofRatio_mono false one_ne_zero one_pos hn one_pos
    (natCast_div_mono (Nat.one_le_iff_ne_zero.mpr hn)) h
  obtain rfl := Option.some.inj (hone.symm.trans hy)
  refine Eq.trans_le ?_ hle
  rw [size]
  norm_num

theorem fst_magnitude_ne_zero {x : Binary64} (h : 0 < x.size) : x.magnitude.1 ≠ 0 := by
  intro hzero
  rw [← div_magnitude, hzero, Nat.cast_zero, zero_div] at h
  exact lt_irrefl _ h

theorem div_magnitude_mul (x y : Binary64) :
    ((x.magnitude.1 * y.magnitude.1 : Nat) : ℚ) / (x.magnitude.2 * y.magnitude.2 : Nat) =
      x.size * y.size := by
  rw [← div_magnitude, ← div_magnitude, Nat.cast_mul, Nat.cast_mul, div_mul_div_comm]

section

variable {x y : Binary64} (hx : 0 < x.size) (hy : 0 < y.size)

include hx hy

theorem fst_magnitude_mul_ne_zero : x.magnitude.1 * y.magnitude.1 ≠ 0 :=
  Nat.mul_ne_zero (fst_magnitude_ne_zero hx) (fst_magnitude_ne_zero hy)

/-- The sign and the length of a product. -/
theorem of_mul {z : Binary64} (h : x.mul y = some z) :
    z.negative = (x.negative != y.negative) ∧ z.significand < 2 ^ 53 :=
  of_ofRatio (fst_magnitude_mul_ne_zero hx hy) (Nat.mul_pos (magnitude_pos x) (magnitude_pos y)) h

/-- **Multiplication is monotone.** -/
theorem mul_mono {x' y' z' : Binary64} (hxx' : x.size ≤ x'.size) (hyy' : y.size ≤ y'.size)
    (h : x'.mul y' = some z') : ∃ z, x.mul y = some z ∧ z.size ≤ z'.size := by
  have hden (u v : Binary64) : 0 < u.magnitude.2 * v.magnitude.2 :=
    Nat.mul_pos (magnitude_pos u) (magnitude_pos v)
  have hsizes : x.size * y.size ≤ x'.size * y'.size :=
    mul_le_mul hxx' hyy' hy.le (hx.trans_le hxx').le
  rw [← div_magnitude_mul, ← div_magnitude_mul] at hsizes
  exact ofRatio_mono _ (fst_magnitude_mul_ne_zero hx hy) (hden x y)
    (fst_magnitude_mul_ne_zero (hx.trans_le hxx') (hy.trans_le hyy')) (hden x' y') hsizes h

end

end PageLoom.Binary64
