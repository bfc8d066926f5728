import PageLoom.Proofs.Css.Firm
import PageLoom.Proofs.Css.Substance

/-!
# Stretches — what the pen writes for the first of two texts

    The pen looks ahead, so what it writes for a text depends on what comes
    after it.  The first of two texts is read with the second one present
    (`Pen.writesFirst`), and the pen then stands at the second one
    (`Pen.between`): in the strings of the first one and within its parentheses,
    whatever comes (`Pen.quoting_between`, `Pen.parens_between`).

    Looking ahead stops at a brace outside strings.  So the second text is not
    seen from before a closing brace that ends the first one
    (`Pen.write_append_close`).
-/

namespace PageLoom.Css

open Text

/-! ## The first of two texts -/

namespace Pen

/-- What is written for the first of two texts. -/
def writesFirst (p : Pen) : List Char → List Char → List Char
  | [], _ => []
  | c :: t, rest => p.writes c (t ++ rest) ++ (p.next c (t ++ rest)).writesFirst t rest

/-- Where the pen stands between two texts. -/
def between (p : Pen) : List Char → List Char → Pen
  | [], _ => p
  | c :: t, rest => (p.next c (t ++ rest)).between t rest

/-- **The pen over two texts** writes what it writes over the first, looking ahead
    into the second, and goes on from where it is then. -/
theorem write_append (p : Pen) (t rest : List Char) :
    p.write (t ++ rest) = p.writesFirst t rest ++ (p.between t rest).write rest := by
  induction t generalizing p with
  | nil => rfl
  | cons c t ih => rw [List.cons_append, write, ih, writesFirst, between, List.append_assoc]

theorem writesFirst_concat (p : Pen) (t : List Char) (d : Char) (rest : List Char) :
    p.writesFirst (t ++ [d]) rest =
      p.writesFirst t (d :: rest) ++ (p.between t (d :: rest)).writes d rest := by
  induction t generalizing p with
  | nil => exact List.append_nil _
  | cons c t ih =>
      rw [List.cons_append, writesFirst, writesFirst, ih, List.append_assoc t, List.append_assoc]
      rfl

theorem between_concat (p : Pen) (t : List Char) (d : Char) (rest : List Char) :
    p.between (t ++ [d]) rest = (p.between t (d :: rest)).next d rest := by
  induction t generalizing p with
  | nil => rfl
  | cons c t ih =>
      rw [List.cons_append, between, between, ih, List.append_assoc t]
      rfl

/-- The pen is in the strings of the text. -/
theorem quoting_between (p : Pen) (t rest : List Char) :
    (p.between t rest).quoting = p.quoting.after t := by
  induction t generalizing p with
  | nil => rfl
  | cons c t ih => rw [between, ih, (p.step c (t ++ rest)).quoting, Quoting.after_cons]

/-- A step counts parentheses outside strings. -/
theorem Step.parens {p p' : Pen} {c : Char} {rest written : List Char}
    (h : p.Step c rest written p') : p'.parens = openNext '(' ')' p.quoting p.parens c := by
  cases h with
  | quoted hquoted => exact (if_pos hquoted).symm
  | hold hcode hspacing =>
      exact (openNext_other (by rintro rfl; cases hspacing) (by rintro rfl; cases hspacing)
        _ _).symm
  | put hcode hsolid htight => exact (if_neg (not_not_intro hcode)).symm
  | drop hcode hsemi hcloses =>
      exact (openNext_other (by rw [hsemi]; decide) (by rw [hsemi]; decide) _ _).symm
  | tight hcode htight hstays =>
      have hpunctuation := isPunctuation_of_tightens htight
      exact (openNext_other (by rintro rfl; cases hpunctuation) (by rintro rfl; cases hpunctuation)
        _ _).symm

/-- **The pen counts the open parentheses.** -/
theorem parens_between (p : Pen) (t rest : List Char) :
    (p.between t rest).parens = openAfter '(' ')' p.quoting p.parens t := by
  induction t generalizing p with
  | nil => rfl
  | cons c t ih =>
      have hstep := p.step c (t ++ rest)
      rw [between, ih, hstep.quoting, hstep.parens, openAfter]

/-- In a string no space is held back, and the next one would mean something. -/
def Open (p : Pen) : Prop :=
  p.quoting ≠ .code → p.held = false ∧ p.quiet = false

/-- A step keeps that: a string starts at a quote, before which no space is held. -/
theorem Step.isOpen {p p' : Pen} {c : Char} {rest written : List Char} (h : p.Open)
    (hstep : p.Step c rest written p') : p'.Open := by
  cases hstep with
  | quoted hquoted => exact fun _ => h hquoted
  | hold hcode hspacing => exact fun hquoted => absurd hcode hquoted
  | put hcode hsolid htight => exact fun _ => ⟨rfl, rfl⟩
  | drop hcode hsemi hcloses => exact fun hquoted => absurd rfl hquoted
  | tight hcode htight hstays => exact fun hquoted => absurd rfl hquoted

theorem isOpen_between {p : Pen} (h : p.Open) (t rest : List Char) : (p.between t rest).Open := by
  induction t generalizing p with
  | nil => exact h
  | cons c t ih => exact ih ((p.step c (t ++ rest)).isOpen h)

/-- A step writes a character that is neither white space nor a semicolon. -/
theorem Step.filter_isInk {p p' : Pen} {c : Char} {rest written : List Char}
    (h : p.Step c rest written p') : written.filter isInk = [c].filter isInk := by
  cases h with
  | quoted hquoted => rfl
  | hold hcode hspacing =>
      rw [List.filter_cons_of_neg]
      rw [isInk, hspacing]
      exact Bool.false_ne_true
  | put hcode hsolid htight =>
      rw [List.filter_append, gap]
      split <;> rfl
  | drop hcode hsemi hcloses =>
      subst hsemi
      rfl
  | tight hcode htight hstays => rfl

/-- Over the first of two texts the pen keeps all ink of it. -/
theorem filter_isInk_writesFirst (p : Pen) (t rest : List Char) :
    (p.writesFirst t rest).filter isInk = t.filter isInk := by
  induction t generalizing p with
  | nil => rfl
  | cons c t ih =>
      rw [writesFirst, List.filter_append, ih, (p.step c (t ++ rest)).filter_isInk,
        ← List.filter_append, List.singleton_append]

/-- **A text that ends in a character that is put** outside strings is written up
    to that character, and a space after it would mean something. -/
theorem between_put {p : Pen} (h : p.Open) {t : List Char} {d : Char}
    (hcode : p.quoting.after (t ++ [d]) = .code) (hsolid : isSpacing d = false)
    (hplain : isPunctuation d = false) (rest : List Char) :
    (∃ w, p.writesFirst (t ++ [d]) rest = w ++ [d]) ∧
      p.between (t ++ [d]) rest =
        ⟨.code, false, false, openAfter '(' ')' p.quoting p.parens (t ++ [d])⟩ := by
  have hparens := p.parens_between (t ++ [d]) rest
  have hquoting := (p.quoting_between (t ++ [d]) rest).trans hcode
  have hopen := isOpen_between h t (d :: rest)
  rw [between_concat] at hparens hquoting ⊢
  rw [writesFirst_concat]
  generalize p.between t (d :: rest) = r at *
  have hstep := r.step d rest
  generalize r.writes d rest = written at *
  generalize r.next d rest = r' at *
  have htight : r.tightens d rest ≠ true := fun htight => by
    rw [isPunctuation_of_tightens htight] at hplain
    cases hplain
  cases hstep with
  | quoted hquoted =>
      obtain ⟨hheld, hquiet⟩ := hopen hquoted
      refine ⟨⟨_, rfl⟩, ?_⟩
      rw [← hparens, ← hquoting, hheld, hquiet]
  | hold hcode' hspacing =>
      rw [hsolid] at hspacing
      cases hspacing
  | put hcode' hsolid' htight' =>
      refine ⟨⟨_, (List.append_assoc _ _ _).symm⟩, ?_⟩
      rw [← hparens, ← hquoting]
  | drop hcode' hsemi hcloses =>
      subst hsemi
      cases hplain
  | tight hcode' htight' hstays => exact absurd htight' htight

/-- White space outside strings is held back. -/
theorem write_spacing {p : Pen} (hcode : p.quoting = .code) {w : List Char}
    (hw : AllSpacing w) (rest : List Char) :
    p.write (w ++ rest) = { p with held := p.held || !w.isEmpty }.write rest := by
  induction w generalizing p with
  | nil =>
      rw [List.nil_append, List.isEmpty_nil, Bool.not_true, Bool.or_false]
  | cons c w ih =>
      obtain ⟨hc, hw⟩ := List.forall_mem_cons.mp hw
      rw [List.cons_append, write_of_isSpacing _ hcode hc,
        ih (p := { p with held := true }) hcode hw, List.isEmpty_cons, Bool.not_false, Bool.or_true, Bool.true_or]

/-! ## Up to a closing brace -/

/-- What comes after a closing brace is not seen from before it. -/
theorem closesNext_append_close (t rest : List Char) :
    closesNext (t ++ '}' :: rest) = closesNext (t ++ ['}']) := by
  induction t with
  | nil => rfl
  | cons c t ih =>
      cases hspacing : isSpacing c with
      | true =>
          rw [List.cons_append, List.cons_append, closesNext_of_isSpacing hspacing,
            closesNext_of_isSpacing hspacing, ih]
      | false =>
          rw [List.cons_append, List.cons_append, closesNext_of_not hspacing,
            closesNext_of_not hspacing]

theorem startsBlock_append_close {q : Quoting} {t : List Char} (h : q.after t = .code)
    (rest : List Char) : startsBlock q (t ++ '}' :: rest) = startsBlock q (t ++ ['}']) := by
  induction t generalizing q with
  | nil =>
      obtain rfl : q = .code := h
      rfl
  | cons c t ih => rw [List.cons_append, List.cons_append, startsBlock, startsBlock, ih h]

/-- **A text up to a closing brace outside strings** is written as if nothing
    came after it, and leaves the pen quiet. -/
theorem write_append_close {p : Pen} {t : List Char} (h : p.quoting.after t = .code)
    (rest : List Char) :
    p.write (t ++ '}' :: rest) =
      p.write (t ++ ['}']) ++
        (⟨.code, false, true, openAfter '(' ')' p.quoting p.parens t⟩ : Pen).write rest := by
  induction t generalizing p with
  | nil =>
      have htight : ∀ rest, p.tightens '}' rest = true := p.tightens_of_mem (by decide)
      have hstays : ∀ rest, ¬('}' = ';' ∧ closesNext rest = true) := fun _ hsemi =>
        absurd hsemi.1 (by decide)
      rw [List.nil_append, List.nil_append, write_of_tight rest h (htight rest) (hstays rest),
        write_of_tight [] h (htight []) (hstays [])]
      rfl
  | cons c t ih =>
      have htightens : p.quoting = .code →
          p.tightens c (t ++ '}' :: rest) = p.tightens c (t ++ ['}']) := by
        intro hcode
        cases hpunctuation : isPunctuation c with
        | false => rw [tightens, tightens, hpunctuation, Bool.false_and, Bool.false_and]
        | true =>
            have hquote := (isPunctuation_apart hpunctuation).1
            rw [hcode, Quoting.after_cons, Quoting.next_code_of_not_quote hquote] at h
            rw [tightens, tightens, startsBlock_append_close h]
      have hsame : p.writes c (t ++ '}' :: rest) = p.writes c (t ++ ['}']) ∧
          p.next c (t ++ '}' :: rest) = p.next c (t ++ ['}']) := by
        by_cases hcode : p.quoting = .code
        · rw [writes, writes, next, next, htightens hcode, closesNext_append_close]
          exact ⟨rfl, rfl⟩
        · rw [writes, writes, next, next, if_pos hcode, if_pos hcode, if_pos hcode, if_pos hcode]
          exact ⟨rfl, rfl⟩
      have hstep := p.step c (t ++ ['}'])
      have hrest : (p.next c (t ++ ['}'])).quoting.after t = .code := by
        rw [hstep.quoting]
        exact h
      rw [List.cons_append, List.cons_append, write, write, hsame.1, hsame.2, ih hrest,
        List.append_assoc, hstep.quoting, hstep.parens, openAfter]

/-- **Where a quiet pen stands**, a space held back shows before a colon only. -/
theorem write_of_quiet {p : Pen} (hcode : p.quoting = .code) (hquiet : p.quiet = true)
    {cs : List Char} (hcs : ∀ c, cs.head? = some c → isSpacing c = false ∧ c ≠ ':') (held : Bool) :
    { p with held := held }.write cs = p.write cs := by
  cases cs with
  | nil => rfl
  | cons c cs =>
      obtain ⟨hsolid, hcolon⟩ := hcs c rfl
      have hgap : ∀ held, { p with held := held }.gap = [] := by
        intro held
        rw [gap, hquiet, Bool.not_true, Bool.and_false]
        rfl
      have htightens : { p with held := held }.tightens c cs = p.tightens c cs := by
        simp only [tightens, decide_eq_false hcolon, Bool.false_and]
      have hwrites : { p with held := held }.writes c cs = p.writes c cs := by
        rw [writes, writes, htightens, hgap held]
        rw [show p.gap = [] from hgap p.held]
      have hnext : { p with held := held }.next c cs = p.next c cs := by
        have hspacing : ¬isSpacing c = true := by
          rw [hsolid]
          exact Bool.false_ne_true
        rw [next, next, if_neg (not_not_intro hcode), if_neg (not_not_intro hcode),
          if_neg hspacing, if_neg hspacing, htightens]
        rfl
      rw [write, write, hwrites, hnext]

end Pen

end PageLoom.Css
