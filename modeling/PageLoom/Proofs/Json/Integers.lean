import Mathlib.Data.List.TakeWhile
import PageLoom.Proofs.Json.Tokens
import PageLoom.Proofs.Number.Rounding
import PageLoom.Proofs.Text.Numerals

/-!
# Integers of any size — exact up to 64 bits, never smaller beyond

    The digits of a natural number of at most 64 bits are read as that number
    (`read_toDigits`).  Those of a greater one are read as a double: the first
    digits that fit 64 bits, rounded, times a rounded power of ten, the product
    rounded again.  Each step keeps the order, so the double is at least what
    the shortest such number gives (`scaled_mono`), which is beyond 64 bits
    itself (`denotes_of_read`).  Up to 308 digits there is such a double
    (`isSome_read`).
-/

namespace PageLoom

open Text

/-- A number whose value is the natural number `n`. -/
def Number.Denotes : Number → Nat → Prop
  | .int i, n => i = n
  | .real x, n => x.size = n ∧ (x.isZero = true ∨ x.negative = false)

namespace Json.Numeral

/-! ## The digits that fit -/

/-- Digits that are dropped only add to the value. -/
theorem mul_pow_le_foldl (digits : List Char) (n : Nat) :
    n * 10 ^ digits.length ≤ digits.foldl (fun n c => n * 10 + digitValue c) n := by
  induction digits generalizing n with
  | nil => exact (Nat.mul_one n).le
  | cons d ds ih =>
      calc n * 10 ^ (ds.length + 1) = n * 10 * 10 ^ ds.length := by
            rw [Nat.pow_succ, Nat.mul_assoc, Nat.mul_comm (10 ^ _)]
        _ ≤ (n * 10 + digitValue d) * 10 ^ ds.length :=
            Nat.mul_le_mul_right _ (Nat.le_add_right _ _)
        _ ≤ _ := ih _

/-- **What is absorbed of a row of digits**: all of it, or as much as fits, and then
    the next digit does not. -/
theorem absorb_cases {significand : Nat} (cs : List Char) (hfits : significand ≤ greatestWord) :
    let value := cs.foldl (fun n c => n * 10 + digitValue c) significand
    (absorb significand cs = (value, []) ∧ value ≤ greatestWord) ∨
      ∃ kept c rest, absorb significand cs = (kept, c :: rest) ∧ c ∈ cs ∧ kept ≤ greatestWord ∧
        greatestWord < kept * 10 + digitValue c ∧ kept * 10 ^ (rest.length + 1) ≤ value := by
  induction cs generalizing significand with
  | nil => exact .inl ⟨rfl, hfits⟩
  | cons c cs ih =>
      rw [absorb]
      dsimp only
      split
      · rename_i hnext
        rcases ih hnext with hall | ⟨kept, d, rest, habsorb, hd, hkept, hover, hvalue⟩
        · exact .inl hall
        · exact .inr ⟨kept, d, rest, habsorb, List.mem_cons_of_mem c hd, hkept, hover, hvalue⟩
      · rename_i hnext
        exact .inr ⟨significand, c, cs, rfl, List.mem_cons_self, hfits, not_le.mp hnext,
          mul_pow_le_foldl (c :: cs) significand⟩

/-! ## Their double -/

/-- The double of a significand after which digits are dropped. -/
def scaled (significand dropped : Nat) : Option Binary64 := do
  scale 4 (← Binary64.ofRatio false significand 1) dropped

theorem real?_whole (whole : List Char) :
    real? ⟨false, whole, none, none⟩ =
      scaled (absorb 0 whole).1 (absorb 0 whole).2.length := by
  show ((Binary64.ofRatio false (absorb 0 whole).1 1).bind fun x =>
    (scale 4 x _).bind some) = (Binary64.ofRatio false (absorb 0 whole).1 1).bind _
  refine congrArg _ (funext fun x => ?_)
  rw [Option.bind_fun_some]
  exact congrArg (scale 4 x) ((Int.add_zero _).trans (Int.sub_zero _))

theorem powerOfTen_eq {n : Nat} (h : n ≤ 400) :
    powerOfTen n = Binary64.ofRatio false (10 ^ n) 1 := by
  have hup : ¬((n : Int) > 400) := by omega
  have hdown : ¬((n : Int) + 1 < -400) := by omega
  have hnonneg : ¬((n : Int) < 0) := by omega
  rw [powerOfTen, Binary64.ofDecimal]
  show (if (1 : Nat) = 0 then _ else if _ then _ else if (n : Int) + 1 < -400 then _ else _) = _
  rw [if_neg one_ne_zero, if_neg hup, if_neg hdown, if_neg hnonneg, one_mul]
  rfl

/-- A significand that is not zero, scaled. -/
theorem scaled_eq_some_iff {significand dropped : Nat} {y : Binary64} (hne : significand ≠ 0) :
    scaled significand dropped = some y ↔
      dropped ≤ 308 ∧ ∃ x p, Binary64.ofRatio false significand 1 = some x ∧
        Binary64.ofRatio false (10 ^ dropped) 1 = some p ∧ x.mul p = some y := by
  show (Binary64.ofRatio false significand 1).bind (fun x => scale 4 x dropped) = some y ↔ _
  have hscale {x : Binary64} (hx : Binary64.ofRatio false significand 1 = some x) :
      scale 4 x dropped = some y ↔ dropped ≤ 308 ∧
        ∃ p, Binary64.ofRatio false (10 ^ dropped) 1 = some p ∧ x.mul p = some y := by
    have hnonzero : ¬x.isZero = true := fun hzero =>
      absurd (Binary64.one_le_size hne hx) (by
        rw [Binary64.size, beq_iff_eq.mp hzero, Nat.cast_zero, zero_mul]
        exact not_le.mpr one_pos)
    rw [scale, if_pos (Int.natCast_nonneg dropped), if_neg hnonzero]
    split
    · rename_i hfar
      refine iff_of_false (fun h => ?_) fun h => ?_
      · cases h
      · omega
    · rename_i hnear
      have hd : dropped ≤ 308 := by omega
      rw [Int.toNat_natCast, powerOfTen_eq (hd.trans (by decide)), and_iff_right hd]
      exact Option.bind_eq_some_iff
  rw [Option.bind_eq_some_iff]
  constructor
  · rintro ⟨x, hx, h⟩
    obtain ⟨hd, p, hp, hmul⟩ := (hscale hx).mp h
    exact ⟨hd, x, p, hx, hp, hmul⟩
  · rintro ⟨hd, x, p, hx, hp, hmul⟩
    exact ⟨x, hx, (hscale hx).mpr ⟨hd, p, hp, hmul⟩⟩

/-- **Scaling is monotone**, and in range below what is in range. -/
theorem scaled_mono {s s' d d' : Nat} {y' : Binary64} (hs : s ≠ 0) (hss' : s ≤ s')
    (hdd' : d ≤ d') (h : scaled s' d' = some y') :
    ∃ y, scaled s d = some y ∧ y.size ≤ y'.size := by
  have hpow : 10 ^ d ≤ 10 ^ d' := Nat.pow_le_pow_right (by decide) hdd'
  obtain ⟨hd', x', p', hx', hp', hmul'⟩ := (scaled_eq_some_iff (by omega)).mp h
  obtain ⟨x, hx, hxx'⟩ := Binary64.ofRatio_mono false hs one_pos (by omega) one_pos
    (Binary64.natCast_div_mono hss') hx'
  obtain ⟨p, hp, hpp'⟩ := Binary64.ofRatio_mono false (by positivity) one_pos
    (by positivity) one_pos (Binary64.natCast_div_mono hpow) hp'
  have hxpos : 0 < x.size := one_pos.trans_le (Binary64.one_le_size hs hx)
  have hppos : 0 < p.size := one_pos.trans_le (Binary64.one_le_size (by positivity) hp)
  obtain ⟨y, hy, hyy'⟩ := Binary64.mul_mono hxpos hppos hxx' hpp' hmul'
  exact ⟨y, (scaled_eq_some_iff hs).mpr ⟨hdd'.trans hd', x, p, hx, hp, hy⟩, hyy'⟩

theorem isSome_scaled {s s' d d' : Nat} (h : (scaled s' d').isSome = true) (hs : s ≠ 0)
    (hss' : s ≤ s') (hdd' : d ≤ d') : (scaled s d).isSome = true := by
  obtain ⟨y', hy'⟩ := Option.isSome_iff_exists.mp h
  obtain ⟨y, hy, -⟩ := scaled_mono hs hss' hdd' hy'
  exact Option.isSome_iff_exists.mpr ⟨y, hy⟩

/-- **Beyond 64 bits**: a significand that ten times would not fit, with a digit
    dropped, gives an integer that does not fit. -/
theorem scaled_denotes {significand dropped : Nat} {y : Binary64}
    (hsignificand : 1844674407370955161 ≤ significand) (hdropped : 1 ≤ dropped)
    (h : scaled significand dropped = some y) :
    ∃ m, greatestWord < m ∧ (Number.real y).Denotes m := by
  have hleast : scaled 1844674407370955161 1 = some ⟨false, 2 ^ 52, 12⟩ := by decide +kernel
  obtain ⟨y₀, hy₀, hle⟩ := scaled_mono (by decide) hsignificand hdropped h
  obtain rfl := Option.some.inj (hleast.symm.trans hy₀)
  have hsize : (2 ^ 64 : ℚ) ≤ y.size := by
    refine Eq.trans_le ?_ hle
    rw [Binary64.size]
    norm_num
  have hne : significand ≠ 0 := by omega
  obtain ⟨-, x, p, hx, hp, hmul⟩ := (scaled_eq_some_iff hne).mp h
  have hten : 10 ^ dropped ≠ 0 := (Nat.pow_pos (by decide)).ne'
  obtain ⟨hnegative, hlt⟩ := Binary64.of_mul (one_pos.trans_le (Binary64.one_le_size hne hx))
    (one_pos.trans_le (Binary64.one_le_size hten hp)) hmul
  rw [(Binary64.of_ofRatio hne one_pos hx).1, (Binary64.of_ofRatio hten one_pos hp).1] at hnegative
  obtain ⟨m, hm⟩ := Binary64.exists_size_eq_natCast hlt (le_trans (by norm_num) hsize)
  refine ⟨m, ?_, hm, .inr hnegative⟩
  rw [hm] at hsize
  have hword : 2 ^ 64 ≤ m := by exact_mod_cast hsize
  exact hword

/-! ## Digits read -/

/-- The digits of a number do not start with a zero, unless it is zero. -/
theorem head?_toDigits {n : Nat} (hn : n ≠ 0) : (Nat.toDigits 10 n).head? ≠ some '0' := by
  induction n using Nat.strongRecOn with
  | ind n ih =>
      rcases Nat.lt_or_ge n 10 with hlt | hge
      · have hdigit : ∀ d < 10, d ≠ 0 → d.digitChar ≠ '0' := by decide
        rw [Nat.toDigits_of_lt_base hlt]
        exact fun h => hdigit n hlt hn (Option.some.inj h)
      · rw [Nat.toDigits_of_base_le (by decide) hge,
          List.head?_append_of_ne_nil _ Nat.toDigits_ne_nil]
        exact ih (n / 10) (by omega) (by omega)

theorem parts?_toDigits (n : Nat) :
    parts? (Nat.toDigits 10 n) = some ⟨false, Nat.toDigits 10 n, none, none⟩ := by
  have hdigits : ∀ c ∈ Nat.toDigits 10 n, c.isDigit = true := fun c => isDigit_of_mem_toDigits
  have htake := List.takeWhile_eq_self_iff.mpr hdigits
  have hdrop := List.dropWhile_eq_nil_iff.mpr hdigits
  have hplain : ((Nat.toDigits 10 n).isEmpty ||
      (decide ((Nat.toDigits 10 n).length > 1) && (Nat.toDigits 10 n).head? == some '0')) =
        false := by
    rw [List.isEmpty_eq_false_iff.mpr Nat.toDigits_ne_nil, Bool.false_or]
    by_cases hn : n = 0
    · rw [hn]
      rfl
    · rw [beq_eq_false_iff_ne.mpr (head?_toDigits hn), Bool.and_false]
  have hsign : ∀ rest, Nat.toDigits 10 n ≠ '-' :: rest := by
    intro rest h
    have hdigit := hdigits '-' (by rw [h]; exact List.mem_cons_self)
    cases hdigit
  rw [parts?, htake, hdrop, hplain, if_neg Bool.false_ne_true]
  · rfl
  · exact hsign

theorem read_toDigits (n : Nat) :
    read (Nat.toDigits 10 n) =
      if n ≤ greatestWord then some (.int n)
      else (real? ⟨false, Nat.toDigits 10 n, none, none⟩).map .real := by
  rw [read, parts?_toDigits]
  show (if (true && true && decide (decimalValue (Nat.toDigits 10 n) ≤ greatestWord)) = true then _
    else _) = _
  rw [decimalValue_toDigits, Bool.true_and, Bool.true_and]
  simp only [decide_eq_true_eq, Option.map_eq_bind]
  rfl

/-- The digits of a number beyond 64 bits: those that fit, and those that are dropped. -/
theorem exists_read_eq {n : Nat} (h : greatestWord < n) :
    ∃ significand dropped, read (Nat.toDigits 10 n) = (scaled significand dropped).map .real ∧
      1844674407370955161 ≤ significand ∧ significand ≤ greatestWord ∧ 1 ≤ dropped ∧
      significand * 10 ^ dropped ≤ n := by
  rcases absorb_cases (Nat.toDigits 10 n) (Nat.zero_le greatestWord) with
    ⟨-, hfits⟩ | ⟨kept, c, rest, habsorb, hc, hkept, hover, hvalue⟩
  · rw [← decimalValue, decimalValue_toDigits] at hfits
    exact absurd h (not_lt.mpr hfits)
  · rw [← decimalValue, decimalValue_toDigits] at hvalue
    refine ⟨kept, rest.length + 1, ?_, ?_, hkept, Nat.le_add_left 1 _, hvalue⟩
    · rw [read_toDigits, if_neg (not_le.mpr h), real?_whole, habsorb, List.length_cons]
    · have hdigit : digitValue c ≤ 9 := digitValue_le_of_isDigit (isDigit_of_mem_toDigits hc)
      have hword : greatestWord = 18446744073709551615 := rfl
      omega

/-- **Digits beyond 64 bits** are read as an integer beyond 64 bits. -/
theorem denotes_of_read {n : Nat} {x : Number} (h : greatestWord < n)
    (hread : read (Nat.toDigits 10 n) = some x) : ∃ m, greatestWord < m ∧ x.Denotes m := by
  obtain ⟨significand, dropped, hscaled, hlow, -, hdropped, -⟩ := exists_read_eq h
  rw [hscaled] at hread
  obtain ⟨y, hy, rfl⟩ := Option.map_eq_some_iff.mp hread
  exact scaled_denotes hlow hdropped hy

/-- **Digits that are in range**: every number of at most 308 digits. -/
theorem isSome_read {n : Nat} (h : n < 10 ^ 308) : (read (Nat.toDigits 10 n)).isSome = true := by
  by_cases hfits : n ≤ greatestWord
  · rw [read_toDigits, if_pos hfits]
    rfl
  obtain ⟨significand, dropped, hscaled, hlow, hhigh, -, hvalue⟩ := exists_read_eq (not_le.mp hfits)
  have hdropped {k : Nat} (hk : 10 ^ k ≤ significand) : k + dropped < 308 := by
    refine (Nat.pow_lt_pow_iff_right (by decide : 1 < 10)).mp ?_
    calc 10 ^ (k + dropped) = 10 ^ k * 10 ^ dropped := Nat.pow_add 10 k dropped
      _ ≤ significand * 10 ^ dropped := Nat.mul_le_mul_right _ hk
      _ ≤ n := hvalue
      _ < 10 ^ 308 := h
  rw [hscaled, Option.isSome_map]
  -- a significand of 19 digits leaves room for one digit more than one of 20
  rcases Nat.le_total significand (10 ^ 19) with hle | hge
  · have hd : dropped ≤ 289 := by
      have := hdropped (k := 18) (le_trans (by decide) hlow)
      omega
    have hrange : (scaled (10 ^ 19) 289).isSome = true := by decide +kernel
    exact isSome_scaled hrange (by omega) hle hd
  · have hd : dropped ≤ 288 := by
      have := hdropped hge
      omega
    have hrange : (scaled greatestWord 288).isSome = true := by decide +kernel
    exact isSome_scaled hrange (by omega) hhigh hd

end Json.Numeral

/-! ## The text of a number -/

namespace Json

/-- A word by itself is one token. -/
theorem tokensFrom_word_eq {word read : List Char} (hword : ∀ c ∈ word, isWordPart c = true) :
    tokensFrom (.word read) word = (wordToken (read.reverse ++ word)).map ([·]) := by
  induction word generalizing read with
  | nil => rw [List.append_nil, tokensFrom]
  | cons c word ih =>
      obtain ⟨hc, hrest⟩ := List.forall_mem_cons.mp hword
      have hstep : (Lexing.word read).step c = some ([], .word (c :: read)) := if_pos hc
      rw [tokensFrom_within hstep, ih hrest, List.reverse_cons, List.append_assoc]
      rfl

/-- **The text of a natural number** denotes what its digits are read as. -/
theorem read_toString (n : Nat) :
    Json.read (toString n) = (Numeral.read (Nat.toDigits 10 n)).map .number := by
  have hdigits : ∀ c ∈ Nat.toDigits 10 n, c.isDigit = true := fun c => isDigit_of_mem_toDigits
  have htext : (toString n).toList = Nat.toDigits 10 n := by
    rw [Nat.toString_eq_repr, Nat.toList_repr]
  rw [Json.read, htext, readChars]
  cases hcs : Nat.toDigits 10 n with
  | nil => exact absurd hcs Nat.toDigits_ne_nil
  | cons c cs =>
      rw [hcs] at hdigits
      obtain ⟨hc, hrest⟩ := List.forall_mem_cons.mp hdigits
      have htoken : wordToken (c :: cs) =
          (Numeral.read (c :: cs)).map fun n => .scalar (.number n) := by
        -- a literal name does not start with a digit
        have hname {d : Char} {ds : List Char} (hd : d.isDigit = false) : c :: cs ≠ d :: ds := by
          intro heq
          rw [(List.cons.inj heq).1, hd] at hc
          cases hc
        rw [wordToken]
        · exact hname rfl
        · exact hname rfl
        · exact hname rfl
      rw [tokensFrom_within (step_between_wordPart (isWordPart_of_isDigit hc)),
        tokensFrom_word_eq fun d hd => isWordPart_of_isDigit (hrest d hd)]
      show (Option.map _ (wordToken (c :: cs))).bind _ = _
      rw [htoken]
      cases Numeral.read (c :: cs) with
      | none => rfl
      | some x => rfl

end Json

end PageLoom
