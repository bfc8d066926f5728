import PageLoom.Proofs.Css.Pen

/-!
# Firm texts — where minifying again changes nothing

    Minification takes back one semicolon before a closing brace, drops a
    comment so that the texts beside it meet, and keeps a colon before which
    it held white space, though nothing of that white space is written after
    punctuation.  So a minified text may have a semicolon before a brace, the
    opening of a comment, or a colon with a space after it and none before
    (`Loose`).  A second minification takes each of these away, and takes
    nothing else: minifying a minified text changes nothing exactly when the
    text has no loose places (`minify_minify_iff`).

    One direction runs a second pen over what the first one writes
    (`Pen.Copies`); the two stand together but after a colon that the second
    one tightens.  In the other direction a text that keeps its length was
    written as it stands (`firm_of_length`).
-/

namespace PageLoom.Css

open Text

/-! ## Loose places -/

/-- **Loose places** outside strings: where a comment opens, a semicolon stands
    before a closing brace, or white space after a colon and none before. -/
def Loose (last : Option Char) (c : Char) (cs : List Char) : Prop :=
  (c = '/' ∧ cs.head? = some '*') ∨ (c = ';' ∧ cs.head? = some '}') ∨
    (c = ':' ∧ cs.head?.any isSpacing = true ∧ last.any isSpacing = false)

instance (last : Option Char) (c : Char) (cs : List Char) : Decidable (Loose last c cs) :=
  inferInstanceAs (Decidable (_ ∨ _ ∨ _))

/-- A **firm** text has no loose place; `last` is the character before it. -/
def Firm : Option Char → Quoting → List Char → Prop
  | _, _, [] => True
  | last, q, c :: cs => (q = .code → ¬Loose last c cs) ∧ Firm (some c) (q.next c) cs

instance decidableFirm : ∀ last q cs, Decidable (Firm last q cs)
  | _, _, [] => isTrue trivial
  | _, q, c :: cs =>
      have := decidableFirm (some c) (q.next c) cs
      inferInstanceAs (Decidable (_ ∧ _))

/-! ## Comments -/

/-- Removing comments drops characters only. -/
theorem stripFrom_sublist (state : Stripping) (t : List Char) : (stripFrom state t).Sublist t := by
  induction state, t using stripFrom.induct with
  | case1 state => simp [stripFrom]
  | case2 cs ih =>
      rw [stripFrom]
      exact (ih.cons '*').cons '/'
  | case3 q c cs hcomment ih =>
      rw [stripFrom]
      · exact ih.cons_cons c
      · exact hcomment
  | case4 cs ih =>
      rw [stripFrom]
      exact (ih.cons '/').cons '*'
  | case5 c cs hclose ih =>
      rw [stripFrom]
      · exact ih.cons c
      · exact hclose

/-- No comment opens in a firm text. -/
theorem stripFrom_of_firm {last : Option Char} {q : Quoting} {t : List Char} (h : Firm last q t) :
    stripFrom (.text q) t = t := by
  induction t generalizing last q with
  | nil => rw [stripFrom]
  | cons c t ih =>
      have hopens : ¬Opens q c t := by
        rintro ⟨hcode, hc, hhead⟩
        exact h.1 hcode (Or.inl ⟨hc, hhead⟩)
      rw [stripFrom_cons hopens, ih h.2]

/-- A text that removing comments does not change starts with no comment. -/
theorem not_opens_of_stripFrom {q : Quoting} {c : Char} {t : List Char}
    (h : stripFrom (.text q) (c :: t) = c :: t) :
    ¬Opens q c t ∧ stripFrom (.text (q.next c)) t = t := by
  have hopens : ¬Opens q c t := by
    rintro ⟨rfl, rfl, hhead⟩
    obtain ⟨s, rfl⟩ := List.head?_eq_some_iff.mp hhead
    have hlength := (stripFrom_sublist .comment s).length_le
    have heq : stripFrom .comment s = '/' :: '*' :: s := by
      rw [← h, stripFrom]
    rw [heq] at hlength
    simp only [List.length_cons] at hlength
    omega
  rw [stripFrom_cons hopens] at h
  exact ⟨hopens, (List.cons.inj h).2⟩

/-! ## Ahead in a written text -/

theorem startsBlock_of_quoted {q : Quoting} (h : q ≠ .code) (c : Char) (cs : List Char) :
    startsBlock q (c :: cs) = startsBlock (q.next c) cs := by
  rw [startsBlock, decide_eq_false h, Bool.false_and, Bool.false_and, if_neg Bool.false_ne_true,
    if_neg Bool.false_ne_true]

theorem startsBlock_of_ne {c : Char} (hc : c ≠ '{' ∧ c ≠ ';' ∧ c ≠ '}') (q : Quoting)
    (cs : List Char) : startsBlock q (c :: cs) = startsBlock (q.next c) cs := by
  rw [startsBlock, decide_eq_false hc.1, decide_eq_false hc.2.1, decide_eq_false hc.2.2,
    Bool.or_false, Bool.and_false, if_neg Bool.false_ne_true, if_neg Bool.false_ne_true]

namespace Pen

/-- A quiet pen writes no space first. -/
theorem not_isSpacing_head?_write {p : Pen} (hcode : p.quoting = .code) (hquiet : p.quiet = true)
    {cs : List Char} {d : Char} (h : (p.write cs).head? = some d) : isSpacing d = false := by
  induction cs generalizing p with
  | nil => cases h
  | cons c cs ih =>
      obtain ⟨written, p', hstep, hwrite⟩ := p.exists_step c cs
      rw [hwrite] at h
      cases hstep with
      | quoted hquoted => exact absurd hcode hquoted
      | hold _ hspacing => exact ih (p := { p with held := true }) hcode hquiet h
      | put _ hsolid htight =>
          rw [gap, hquiet, Bool.not_true, Bool.and_false] at h
          obtain rfl : c = d := Option.some.inj h
          exact hsolid
      | drop _ hsemi hcloses => exact ih rfl rfl h
      | tight _ htight _ =>
          obtain rfl : c = d := Option.some.inj h
          exact (isPunctuation_apart (isPunctuation_of_tightens htight)).2

/-- A closing brace that comes next after a quiet pen was written at once. -/
theorem head?_of_closesNext_write {p : Pen} (hcode : p.quoting = .code) (hquiet : p.quiet = true)
    {cs : List Char} (h : closesNext (p.write cs) = true) : (p.write cs).head? = some '}' := by
  cases hwrite : p.write cs with
  | nil =>
      rw [hwrite] at h
      cases h
  | cons d t =>
      have hd : isSpacing d = false :=
        not_isSpacing_head?_write hcode hquiet (congrArg List.head? hwrite)
      rw [hwrite, closesNext_of_not hd] at h
      exact congrArg some (eq_of_beq h)

/-- **The pen looks ahead alike** in a text and in what is written of it. -/
theorem startsBlock_write (p : Pen) (cs : List Char) :
    startsBlock p.quoting (p.write cs) = startsBlock p.quoting cs := by
  induction cs generalizing p with
  | nil => rfl
  | cons c cs ih =>
      obtain ⟨written, p', hstep, hwrite⟩ := p.exists_step c cs
      rw [hwrite]
      cases hstep with
      | quoted hquoted =>
          rw [List.singleton_append, startsBlock_of_quoted hquoted, startsBlock_of_quoted hquoted]
          exact ih { p with quoting := p.quoting.next c }
      | hold hcode hspacing =>
          have hrest := ih { p with held := true }
          have hblank := isBlank_of_isSpacing hspacing
          have hne : ∀ d, isBlank d = false → c ≠ d := fun d => ne_of_isBlank hblank
          rw [hcode] at hrest ⊢
          rw [startsBlock_of_ne ⟨hne _ (by decide), hne _ (by decide), hne _ (by decide)⟩,
            Quoting.next_code_of_isSpacing hspacing, ← hrest, List.nil_append]
      | put hcode hsolid htight =>
          have hgap : ∀ t, startsBlock .code (p.gap ++ t) = startsBlock .code t := by
            intro t
            rw [gap]
            split <;> rfl
          have hbrace : c ≠ '{' ∧ c ≠ ';' ∧ c ≠ '}' :=
            ⟨ne_of_mem htight (by decide), ne_of_mem htight (by decide),
              ne_of_mem htight (by decide)⟩
          have hrest := ih ⟨p.quoting.next c, false, false, p.parensAfter c⟩
          rw [hcode] at hrest ⊢
          rw [List.append_assoc, hgap, List.singleton_append, startsBlock_of_ne hbrace,
            startsBlock_of_ne hbrace]
          exact hrest
      | drop hcode hsemi hcloses =>
          -- the brace that comes next ends the search as the semicolon does
          subst hsemi
          obtain ⟨t, ht⟩ := List.head?_eq_some_iff.mp
            (head?_write_of_closesNext ⟨.code, false, true, p.parens⟩ rfl hcloses)
          rw [hcode, List.nil_append, ht]
          rfl
      | tight hcode htight hstays =>
          have hrest := ih ⟨.code, false, true, p.parens⟩
          rw [hcode, List.singleton_append, startsBlock, startsBlock, next_of_tightens htight,
            hrest]

/-! ## The second pen -/

/-- Two pens differ over punctuation only at a colon, which white space before
    it keeps loose. -/
theorem eq_colon_of_tightens {p q : Pen} {c : Char} {rest rest' : List Char}
    (hp : p.tightens c rest = false) (hq : q.tightens c rest' = true)
    (hparens : q.parens = p.parens) : c = ':' := by
  have hpunctuation := isPunctuation_of_tightens hq
  rw [tightens, hpunctuation, Bool.true_and] at hp hq
  rw [hparens, Bool.not_eq_true', Bool.or_eq_false_iff] at hq
  rw [hq.1, Bool.false_or, Bool.not_eq_false'] at hp
  simp only [Bool.and_eq_true, decide_eq_true_eq] at hp
  exact hp.1.1.1

/-- Without white space before it a character is no looser. -/
theorem tightens_of_not_held {p q : Pen} {c : Char} {rest rest' : List Char}
    (h : p.tightens c rest = true) (hparens : q.parens = p.parens) (hheld : q.held = false) :
    q.tightens c rest' = true := by
  have hpunctuation := isPunctuation_of_tightens h
  rw [tightens, hpunctuation, Bool.true_and, Bool.not_eq_true', Bool.or_eq_false_iff] at h
  rw [tightens, hpunctuation, hparens, h.1, hheld, Bool.and_false, Bool.false_and, Bool.false_and]
  rfl

/-- **The second pen**, `q`, reads what the first one, `p`, writes of a text;
    `last` was written before. -/
structure Copies (q p : Pen) (last : Option Char) (cs : List Char) : Prop where
  proper : p.quoting.Proper
  quoting : q.quoting = p.quoting
  parens : q.parens = p.parens
  held : q.held = false
  /-- the pens may differ where no space is written next -/
  quiet : q.quiet = p.quiet ∨ p.quoting = .code ∧ (p.write cs).head? ≠ some ' '
  solid : p.quoting = .code → last.any isSpacing = false

section Copies

variable {q p p' : Pen} {last : Option Char} {c : Char} {cs written : List Char}

/-- A character that keeps its spaces is put by both pens, but for a colon that
    the second one may tighten. -/
theorem Copies.put (h : q.Copies p last (c :: cs)) (hcode : p.quoting = .code)
    (hsolid : isSpacing c = false) (htight : p.tightens c cs = false)
    (hp' : p' = ⟨p.quoting.next c, false, false, p.parensAfter c⟩)
    (hwrite : p.write (c :: cs) = p.gap ++ c :: p'.write cs)
    (hfirm : Firm last p.quoting (p.gap ++ c :: p'.write cs)) :
    ∃ q' : Pen, q'.Copies p' (some c) cs ∧ Firm (some c) p'.quoting (p'.write cs) ∧
      q.write (p.gap ++ c :: p'.write cs) = p.gap ++ c :: q'.write (p'.write cs) := by
  have hcode' := h.quoting.trans hcode
  have hnext : p'.quoting = Quoting.code.next c := by
    rw [hp', hcode]
  have hself : p'.Copies p' (some c) cs :=
    { proper := by
        rw [hp']
        exact Quoting.proper_next h.proper c
      quoting := rfl
      parens := rfl
      held := by rw [hp']
      quiet := Or.inl rfl
      solid := fun _ => hsolid }
  have hsame : ⟨q.quoting.next c, false, false, q.parensAfter c⟩ = p' := by
    rw [hp', h.quoting, parensAfter, h.parens]
    rfl
  by_cases hgap : (p.held && !p.quiet) = true
  · -- the space is written, so the second pen holds one too
    obtain ⟨hheld, hloud⟩ := Bool.and_eq_true_iff.mp hgap
    have hgap' : p.gap = [' '] := if_pos hgap
    have hquiet : q.quiet = p.quiet := by
      rcases h.quiet with hquiet | ⟨-, hhead⟩
      · exact hquiet
      · rw [hwrite, hgap'] at hhead
        exact absurd rfl hhead
    have htight' : tightens { q with held := true } c (p'.write cs) = false := by
      cases hpunctuation : isPunctuation c with
      | false => rw [tightens, hpunctuation, Bool.false_and]
      | true =>
          have hahead := startsBlock_write p' cs
          rw [hnext, Quoting.next_code_of_not_quote (isPunctuation_apart hpunctuation).1] at hahead
          rw [← htight, tightens, tightens, hahead, h.parens, hheld]
    rw [hgap', hcode] at hfirm
    rw [hgap']
    refine ⟨p', hself, ?_, ?_⟩
    · rw [hnext]
      exact hfirm.2.2
    · rw [List.singleton_append, write_of_isSpacing _ hcode' (by decide)]
      have hput := write_of_put (p := { q with held := true }) (p'.write cs) hcode' hsolid htight'
      rw [hput, gap, hquiet, hloud]
      exact congrArg (fun q' => ' ' :: c :: Pen.write q' (p'.write cs)) hsame
  · have hgap' : p.gap = [] := if_neg hgap
    have hnone : q.gap = [] := by
      rw [gap, h.held, Bool.false_and]
      rfl
    rw [hgap', hcode] at hfirm
    rw [hgap', List.nil_append]
    have htail : Firm (some c) p'.quoting (p'.write cs) := by
      rw [hnext]
      exact hfirm.2
    cases htight' : q.tightens c (p'.write cs) with
    | false =>
        refine ⟨p', hself, htail, ?_⟩
        rw [write_of_put _ hcode' hsolid htight', hnone]
        exact congrArg (fun q' => c :: Pen.write q' (p'.write cs)) hsame
    | true =>
        -- a colon, and no white space comes next
        obtain rfl := eq_colon_of_tightens htight htight' h.parens
        have hhead : (p'.write cs).head? ≠ some ' ' := by
          intro hhead
          refine hfirm.1 rfl (Or.inr (Or.inr ⟨rfl, ?_, h.solid hcode⟩))
          rw [hhead]
          rfl
        have hcopies : Copies ⟨.code, false, true, q.parens⟩ p' (some ':') cs :=
          { hself with
            quoting := hnext.symm
            parens := by
              rw [hp']
              exact h.parens
            held := rfl
            quiet := Or.inr ⟨hnext, hhead⟩ }
        refine ⟨_, hcopies, htail, ?_⟩
        exact write_of_tight _ hcode' htight' fun hsemi => absurd hsemi.1 (by decide)

/-- **One step** of the first pen, read by the second one. -/
theorem Copies.step (h : q.Copies p last (c :: cs)) (hstep : p.Step c cs written p')
    (hwrite : p.write (c :: cs) = written ++ p'.write cs)
    (hfirm : Firm last p.quoting (written ++ p'.write cs)) :
    ∃ (q' : Pen) (last' : Option Char), q'.Copies p' last' cs ∧
      Firm last' p'.quoting (p'.write cs) ∧
      q.write (written ++ p'.write cs) = written ++ q'.write (p'.write cs) := by
  have hquiet := h.quiet
  rw [hwrite] at hquiet
  cases hstep with
  | quoted hquoted =>
      have hcopies : Copies { q with quoting := q.quoting.next c }
          { p with quoting := p.quoting.next c } (some c) cs :=
        { proper := Quoting.proper_next h.proper c
          quoting := congrArg (Quoting.next · c) h.quoting
          parens := h.parens
          held := h.held
          quiet := hquiet.imp_right fun hcode => absurd hcode.1 hquoted
          solid := fun hcode => by
            have hquote := isQuote_of_closing h.proper hquoted hcode
            exact Bool.eq_false_iff.mpr fun hspacing => Bool.false_ne_true
              ((isQuote_of_isSpacing hspacing).symm.trans hquote) }
      refine ⟨_, some c, hcopies, hfirm.2, write_of_quoted _ ?_⟩
      rw [h.quoting]
      exact hquoted
  | hold hcode hspacing =>
      have hcopies : q.Copies { p with held := true } last cs :=
        { proper := h.proper
          quoting := h.quoting
          parens := h.parens
          held := h.held
          quiet := hquiet
          solid := h.solid }
      exact ⟨q, last, hcopies, hfirm, rfl⟩
  | put hcode hsolid htight =>
      rw [List.append_assoc] at hwrite hfirm ⊢
      obtain ⟨q', hcopies, hfirm', hagain⟩ := h.put hcode hsolid htight rfl hwrite hfirm
      refine ⟨q', some c, hcopies, hfirm', ?_⟩
      rw [List.append_assoc]
      exact hagain
  | drop hcode hsemi hcloses =>
      have hbrace := head?_write_of_closesNext ⟨.code, false, true, p.parens⟩ rfl hcloses
      have hcopies : q.Copies ⟨.code, false, true, p.parens⟩ last cs :=
        { proper := trivial
          quoting := h.quoting.trans hcode
          parens := h.parens
          held := h.held
          quiet := Or.inr ⟨rfl, by rw [hbrace]; decide⟩
          solid := fun _ => h.solid hcode }
      rw [hcode] at hfirm
      exact ⟨q, last, hcopies, hfirm, rfl⟩
  | tight hcode htight hstays =>
      have hstays' : ¬(c = ';' ∧
          closesNext (Pen.write ⟨.code, false, true, p.parens⟩ cs) = true) := by
        rintro ⟨rfl, hcloses⟩
        exact hfirm.1 hcode (Or.inr (Or.inl ⟨rfl, head?_of_closesNext_write rfl rfl hcloses⟩))
      have hcopies : Copies ⟨.code, false, true, q.parens⟩ ⟨.code, false, true, p.parens⟩
          (some c) cs :=
        { proper := trivial
          quoting := rfl
          parens := h.parens
          held := rfl
          quiet := Or.inl rfl
          solid := fun _ => (isPunctuation_apart (isPunctuation_of_tightens htight)).2 }
      have htail := hfirm.2
      rw [hcode, next_of_tightens htight] at htail
      exact ⟨_, some c, hcopies, htail, write_of_tight _ (h.quoting.trans hcode)
        (tightens_of_not_held htight h.parens h.held) hstays'⟩

/-- **What the first pen writes, the second one writes again**, if it is firm. -/
theorem Copies.write_write (h : q.Copies p last cs) (hfirm : Firm last p.quoting (p.write cs)) :
    q.write (p.write cs) = p.write cs := by
  induction cs generalizing p q last with
  | nil => rfl
  | cons c cs ih =>
      obtain ⟨written, p', hstep, hwrite⟩ := p.exists_step c cs
      rw [hwrite] at hfirm
      obtain ⟨q', last', hcopies, hfirm', hagain⟩ := h.step hstep hwrite hfirm
      rw [hwrite, hagain, ih hcopies hfirm']

end Copies

/-! ## Lengths -/

theorem length_gap_le (p : Pen) : p.gap.length ≤ 1 := by
  rw [gap]
  split
  · exact Nat.le_refl 1
  · exact Nat.zero_le 1

/-- A step writes no more than it reads, if a space held back counts as written. -/
theorem Step.length_le {p p' : Pen} {c : Char} {rest written : List Char}
    (h : p.Step c rest written p') : written.length + p'.gap.length ≤ 1 + p.gap.length := by
  cases h with
  | quoted hquoted => exact Nat.le_refl _
  | hold hcode hspacing =>
      have hgap := length_gap_le { p with held := true }
      simp only [List.length_nil]
      omega
  | put hcode hsolid htight =>
      have hgap : (⟨p.quoting.next c, false, false, p.parensAfter c⟩ : Pen).gap = [] := rfl
      rw [hgap, List.length_append, List.length_singleton, List.length_nil]
      omega
  | drop hcode hsemi hcloses => exact Nat.zero_le _
  | tight hcode htight hstays => exact Nat.le_add_right _ _

theorem length_write_le (p : Pen) (cs : List Char) :
    (p.write cs).length ≤ cs.length + p.gap.length := by
  induction cs generalizing p with
  | nil => exact Nat.zero_le _
  | cons c cs ih =>
      obtain ⟨written, p', hstep, hwrite⟩ := p.exists_step c cs
      have hle := hstep.length_le
      have hrest := ih p'
      rw [hwrite, List.length_append, List.length_cons]
      omega

/-- A text that keeps its length does so at each step. -/
theorem exists_step_of_length {p : Pen} {c : Char} {cs : List Char}
    (h : (p.write (c :: cs)).length = (c :: cs).length + p.gap.length) :
    ∃ written p', p.Step c cs written p' ∧ written.length + p'.gap.length = 1 + p.gap.length ∧
      (p'.write cs).length = cs.length + p'.gap.length := by
  obtain ⟨written, p', hstep, hwrite⟩ := p.exists_step c cs
  have hle := hstep.length_le
  have hrest := length_write_le p' cs
  rw [hwrite, List.length_append, List.length_cons] at h
  exact ⟨written, p', hstep, by omega, by omega⟩

/-- A pen follows the strings of the text. -/
theorem Step.quoting {p p' : Pen} {c : Char} {rest written : List Char}
    (h : p.Step c rest written p') : p'.quoting = p.quoting.next c := by
  cases h with
  | quoted hquoted => rfl
  | hold hcode hspacing =>
      show p.quoting = _
      rw [hcode, Quoting.next_code_of_isSpacing hspacing]
  | put hcode hsolid htight => rfl
  | drop hcode hsemi hcloses =>
      rw [hcode, hsemi]
      rfl
  | tight hcode htight hstays => rw [hcode, next_of_tightens htight]

/-- **A loose place costs length.** -/
theorem not_loose_of_length {p : Pen} {last : Option Char} {c : Char} {t : List Char}
    (hcode : p.quoting = .code) (hopens : ¬Opens p.quoting c t)
    (hheld : p.held = true → last.any isSpacing = true)
    (hlength : (p.write (c :: t)).length = (c :: t).length + p.gap.length) : ¬Loose last c t := by
  rintro (⟨hslash, hstar⟩ | ⟨rfl, hbrace⟩ | ⟨rfl, hspace, hlast⟩)
  · exact hopens ⟨hcode, hslash, hstar⟩
  · -- the semicolon is dropped
    obtain ⟨s, rfl⟩ := List.head?_eq_some_iff.mp hbrace
    obtain ⟨written, p', hstep, hkeeps, -⟩ := exists_step_of_length hlength
    cases hstep with
    | quoted hquoted => exact hquoted hcode
    | hold _ hspacing => cases hspacing
    | put _ _ htight => exact ne_of_mem htight (by decide) rfl
    | drop _ _ _ =>
        have hnone : 0 = 1 + p.gap.length := hkeeps
        omega
    | tight _ _ hstays => exact hstays ⟨rfl, rfl⟩
  · -- the colon is tight, so the white space after it is swallowed
    cases t with
    | nil => cases hspace
    | cons d s =>
        have hheld' : p.held = false := by
          refine Bool.eq_false_iff.mpr fun h => Bool.false_ne_true ?_
          rw [← hlast, hheld h]
        have htight : p.tightens ':' (d :: s) = true := by
          rw [tightens, hheld', Bool.and_false, Bool.false_and, Bool.false_and]
          rfl
        have hstays : ¬(':' = ';' ∧ closesNext (d :: s) = true) := fun h => absurd h.1 (by decide)
        have hquiet : (⟨.code, true, true, p.parens⟩ : Pen).gap = [] := rfl
        have hle := length_write_le ⟨.code, true, true, p.parens⟩ s
        rw [write_of_tight _ hcode htight hstays, write_of_isSpacing _ rfl hspace] at hlength
        rw [hquiet] at hle
        simp only [List.length_cons, List.length_nil] at hlength hle
        omega

/-- **A text that keeps its length is firm**, if no comment opens in it. -/
theorem firm_of_length {p : Pen} {last : Option Char} {t : List Char}
    (hlength : (p.write t).length = t.length + p.gap.length)
    (hstrip : stripFrom (.text p.quoting) t = t)
    (hheld : p.held = true → p.quoting = .code ∧ last.any isSpacing = true) :
    Firm last p.quoting t := by
  induction t generalizing p last with
  | nil => trivial
  | cons c t ih =>
      obtain ⟨hopens, hstrip'⟩ := not_opens_of_stripFrom hstrip
      refine ⟨fun hcode => not_loose_of_length hcode hopens (fun h => (hheld h).2) hlength, ?_⟩
      obtain ⟨written, p', hstep, -, hrest⟩ := exists_step_of_length hlength
      have hheld' : p'.held = true → p'.quoting = .code ∧ isSpacing c = true := by
        cases hstep with
        | quoted hquoted => exact fun h => absurd (hheld h).1 hquoted
        | hold hcode hspacing => exact fun _ => ⟨hcode, hspacing⟩
        | put _ _ _ => exact fun h => absurd h Bool.false_ne_true
        | drop _ _ _ => exact fun h => absurd h Bool.false_ne_true
        | tight _ _ _ => exact fun h => absurd h Bool.false_ne_true
      rw [← hstep.quoting] at hstrip' ⊢
      exact ih hrest hstrip' hheld'

end Pen

/-! ## Minifying again -/

/-- What minification writes is solid at both ends. -/
theorem solid_minifyChars (css : List Char) : Solid (minifyChars css) := by
  obtain ⟨held, hwrite⟩ := minifyChars_eq css
  obtain ⟨-, -, -, -, -, hsolid⟩ := exists_trim (stripComments css)
  rw [hwrite]
  exact Pen.solid_write rfl rfl hsolid

/-- **Minifying a minified text** changes nothing exactly when the text is firm. -/
theorem minify_minify_iff (css : String) :
    minify (minify css) = minify css ↔ Firm none .code (minify css).toList := by
  have htext : (minify css).toList = minifyChars css.toList := String.toList_ofList
  have hagain : minify (minify css) = minify css ↔
      minifyChars (minifyChars css.toList) = minifyChars css.toList := by
    rw [minify, htext, minify, String.ofList_inj]
  obtain ⟨held, hwrite⟩ := minifyChars_eq css.toList
  have hsolid := solid_minifyChars css.toList
  rw [hagain, htext]
  generalize minifyChars css.toList = t at *
  constructor
  · intro hsame
    -- nothing is dropped, by any of the three
    have hstrip := stripFrom_sublist (.text .code) t
    have hwritten := Pen.length_write_le {} (stripComments t)
    have htrim := length_trim_le (({} : Pen).write (stripComments t))
    rw [← minifyChars_eq_trim, hsame] at htrim
    have hgap : ({} : Pen).gap = [] := rfl
    have hle := hstrip.length_le
    rw [hgap, List.length_nil, Nat.add_zero] at hwritten
    have hstripped : stripComments t = t :=
      hstrip.eq_of_length (Nat.le_antisymm hle (Nat.le_trans htrim hwritten))
    rw [hstripped] at htrim hwritten
    exact Pen.firm_of_length (Nat.le_antisymm hwritten htrim) hstripped
      fun h => absurd h Bool.false_ne_true
  · intro hfirm
    have hcopies : ({} : Pen).Copies ⟨.code, held, true, 0⟩ none
        (trim (stripComments css.toList)) :=
      { proper := trivial
        quoting := rfl
        parens := rfl
        held := rfl
        quiet := Or.inl rfl
        solid := fun _ => rfl }
    have hsecond := hcopies.write_write (hwrite ▸ hfirm)
    rw [← hwrite] at hsecond
    rw [minifyChars_eq_trim, stripComments, stripFrom_of_firm hfirm, hsecond, trim_of_solid hsolid]

/-- **Each kind of loose place is met**: of two semicolons one is left before the
    brace, the texts beside a comment meet in a new one, and a colon is kept
    loose after punctuation. -/
theorem minify_minify_ne :
    minify (minify "a\x7bb:c;;\x7d") ≠ minify "a\x7bb:c;;\x7d" ∧
      minify (minify "//**/*x*/") ≠ minify "//**/*x*/" ∧
      minify (minify "a, : x\x7b\x7d") ≠ minify "a, : x\x7b\x7d" := by
  decide +kernel

end PageLoom.Css
