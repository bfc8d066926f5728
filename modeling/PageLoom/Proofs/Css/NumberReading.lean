import PageLoom.Proofs.Css.Leads

/-!
# Numbers, as the reader meets them

    Digits are characters of a name to the reader, and a point, a sign or a
    percent sign is no more than code.  So a number leads to the inside of a
    word, and with its unit to fresh code (`Leads.numeric`).
-/

namespace PageLoom.Css

open Text Token

/-! ## Numbers -/

/-- A number without digits before its point. -/
theorem startsNumber_of_not_digit {c : Char} {t : List Char} (hc : c.isDigit = false)
    (h : startsNumber (c :: t) = true) : c = '.' ∧ startsDigit t = true := by
  unfold startsNumber at h
  split at h
  · rename_i heq
    obtain ⟨rfl, rfl⟩ := List.cons.inj heq
    exact ⟨rfl, h⟩
  · have hdigit : c.isDigit = true := h
    rw [hc] at hdigit
    cases hdigit

theorem startsNumber_of_isDigit {c : Char} (hc : c.isDigit = true) (t : List Char) :
    startsNumber (c :: t) = true := by
  unfold startsNumber
  split
  · rename_i heq
    rw [(List.cons.inj heq).1] at hc
    cases hc
  · exact hc

namespace Leads

variable {r : Recent} {stack : List Bracket} {t : List Char}

/-- A character that leaves the reader in code. -/
theorem code {c : Char} {r' : Recent} (h : (Mode.code r).next c = some (.code r'))
    (hc : c ∉ ['(', ')', '[', ']', '{', '}']) :
    Leads ⟨.code r, stack⟩ (c :: t) ⟨.code r', stack⟩ t :=
  skip h hc stack t

theorem digits_of_word (t : List Char) :
    Leads ⟨.code .word, stack⟩ t ⟨.code .word, stack⟩ (t.drop (digits t)) := by
  rw [digits, drop_takeWhile]
  refine dropWhile (fun c hc => ?_) stack t
  have hname := isNameChar_of_isDigit hc
  rw [Mode.next_of_isNameChar _ hname, Recent.next_of_isDigit _ hc]
  exact ⟨rfl, not_bracket_of_isNameChar hname⟩

/-- Digits, at least one. -/
theorem digits (h : startsDigit t = true) :
    Leads ⟨.code r, stack⟩ t ⟨.code .word, stack⟩ (t.drop (Token.digits t)) := by
  cases t with
  | nil => cases h
  | cons c t =>
      have hc : c.isDigit = true := h
      have hname := isNameChar_of_isDigit hc
      have hstep : (Mode.code r).next c = some (.code .word) := by
        rw [Mode.next_of_isNameChar _ hname, Recent.next_of_isDigit _ hc]
      have hdigits : Token.digits (c :: t) = Token.digits t + 1 := by
        rw [Token.digits, Token.digits, List.takeWhile_cons, hc]
        rfl
      rw [hdigits, List.drop_succ_cons]
      exact (code hstep (not_bracket_of_isNameChar hname)).trans (digits_of_word t)

/-- A fraction. -/
theorem fraction (h : startsDigit t = true) :
    Leads ⟨.code r, stack⟩ ('.' :: t) ⟨.code .word, stack⟩
      (('.' :: t).drop (Token.fraction ('.' :: t))) := by
  have hpoint : (Mode.code r).next '.' = some (.code .fresh) := by
    cases r <;> decide
  rw [Token.fraction, if_pos h, List.drop_succ_cons]
  exact (code hpoint (by decide)).trans (digits h)

theorem fraction_of_word (t : List Char) :
    Leads ⟨.code .word, stack⟩ t ⟨.code .word, stack⟩ (t.drop (Token.fraction t)) := by
  unfold Token.fraction
  split
  · rename_i t
    split
    · rename_i h
      have hlead : Leads ⟨.code .word, stack⟩ ('.' :: t) _ _ := fraction h
      rw [Token.fraction, if_pos h] at hlead
      exact hlead
    · exact refl _ _
  · exact refl _ _

/-- An exponent after its letter. -/
theorem exponent_digits {s : Char} {t : List Char} :
    Leads ⟨.code .word, stack⟩ (s :: t) ⟨.code .word, stack⟩
      ((s :: t).drop (if s.isDigit then Token.digits (s :: t)
        else if (s == '+' || s == '-') && startsDigit t then Token.digits t + 1 else 0)) := by
  by_cases hdigit : s.isDigit = true
  · rw [if_pos hdigit]
    exact digits_of_word _
  · rw [if_neg hdigit]
    split
    · rename_i hsign
      simp only [Bool.and_eq_true, Bool.or_eq_true, beq_iff_eq] at hsign
      obtain ⟨hsign, hstart⟩ := hsign
      rw [List.drop_succ_cons]
      rcases hsign with rfl | rfl
      · have hplus : (Mode.code .word).next '+' = some (.code .fresh) := rfl
        exact (code hplus (by decide)).trans (digits hstart)
      · have hminus : (Mode.code .word).next '-' = some (.code .word) := rfl
        exact (code hminus (by decide)).trans (digits hstart)
    · exact refl _ _

/-- An exponent. -/
theorem exponent (t : List Char) :
    Leads ⟨.code .word, stack⟩ t ⟨.code .word, stack⟩ (t.drop (Token.exponent t)) := by
  cases t with
  | nil => exact refl _ _
  | cons e t =>
      by_cases he : e = 'e' ∨ e = 'E'
      · have hletter : (Mode.code .word).next e = some (.code .word) := by
          rcases he with rfl | rfl <;> decide
        have hbracket : e ∉ ['(', ')', '[', ']', '{', '}'] := by
          rcases he with rfl | rfl <;> decide
        cases t with
        | nil =>
            have hzero : Token.exponent [e] = 0 := by
              rcases he with rfl | rfl <;> rfl
            rw [hzero]
            exact refl _ _
        | cons s t =>
            have hfirst : Leads ⟨.code .word, stack⟩ (e :: s :: t) ⟨.code .word, stack⟩ (s :: t) :=
              code hletter hbracket
            have hlead := hfirst.trans exponent_digits
            have hlength : Token.exponent (e :: s :: t) =
                if s.isDigit then Token.digits (s :: t) + 1
                else if (s == '+' || s == '-') && startsDigit t then Token.digits t + 2 else 0 := by
              rcases he with rfl | rfl <;> rfl
            rw [hlength]
            split at hlead
            · rename_i hdigit
              rw [if_pos hdigit]
              exact hlead
            · rename_i hdigit
              rw [if_neg hdigit]
              split at hlead
              · rename_i hsign
                rw [if_pos hsign]
                exact hlead
              · rename_i hsign
                rw [if_neg hsign]
                exact refl _ _
      · have hzero : Token.exponent (e :: t) = 0 := by
          rw [not_or] at he
          simp only [Token.exponent, beq_eq_false_iff_ne.mpr he.1, beq_eq_false_iff_ne.mpr he.2]
          rfl
        rw [hzero]
        exact refl _ _

/-- The number without its unit. -/
theorem number (h : startsNumber t = true) :
    Leads ⟨.code r, stack⟩ t ⟨.code .word, stack⟩
      ((t.drop (Token.digits t)).drop (Token.fraction (t.drop (Token.digits t)))) := by
  by_cases hdigit : startsDigit t = true
  · exact (digits hdigit).trans (fraction_of_word _)
  · cases t with
    | nil => cases h
    | cons c t =>
        have hc : c.isDigit = false := by simpa [startsDigit] using hdigit
        obtain ⟨rfl, hstart⟩ := startsNumber_of_not_digit hc h
        exact fraction hstart

/-- **A number with its unit.** -/
theorem numeric (h : startsNumber t = true) (hplain : (Mode.code r).isPlain t = true) :
    Leads ⟨.code r, stack⟩ t ⟨.code .fresh, stack⟩ (t.drop (Token.numeric t)) := by
  have hdigits : Leads ⟨.code r, stack⟩ t ⟨.code .word, stack⟩ _ := number h
  have hnumber := hdigits.trans (exponent _)
  simp only [List.drop_drop] at hnumber
  unfold Token.numeric
  dsimp only
  generalize Token.digits t + _ + _ = n at hnumber ⊢
  have hunit := hnumber.plain hplain
  split
  · rename_i rest hrest
    rw [hrest] at hnumber
    rw [← List.drop_drop, hrest]
    have hpercent : (Mode.code .word).next '%' = some (.code .fresh) := rfl
    exact hnumber.trans (code hpercent (by decide))
  · split
    · rw [← List.drop_drop, name_of_plain hunit, drop_takeWhile]
      have hname := name .word stack (t.drop n)
      rw [Recent.word_after (List.all_eq_true.mp List.all_takeWhile)] at hname
      refine (hnumber.trans hname).trans (alike rfl (fun _ h => h) fun d s hd => ?_)
      have hstop := List.head?_dropWhile_not isNameChar (t.drop n)
      rw [hd] at hstop
      exact Mode.next_after_name (by decide) hstop fun h => absurd h.2 (by decide)
    · rename_i hstart
      refine hnumber.trans (alike rfl (fun _ h => h) fun d s hd => ?_)
      rw [hd] at hstart
      refine Mode.next_after_word (Bool.eq_false_iff.mpr fun hname => hstart ?_)
      exact startsName_of_isNameStart hname s

end Leads

end PageLoom.Css
