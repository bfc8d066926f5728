import PageLoom.Proofs.Css.Pen

/-!
# Substance — what minification keeps

    Two texts have the same substance if they agree but for white space
    outside strings (`unspaced`) and one semicolon before each closing brace
    (`unclosed`).  Minification keeps the substance of a text without its
    comments, copies the string literals, and leaves single spaces only; so
    every character that is neither white space nor a semicolon (`isInk`) is
    written once and in its place (`minify_keeps`).

    Each law holds of the pen, by induction over its steps, and then of
    minification, since white space at the ends is of no account.
-/

namespace PageLoom.Css

open Text

/-! ## White space outside strings -/

/-- A text without its white space outside strings. -/
def unspaced : Quoting → List Char → List Char
  | _, [] => []
  | q, c :: cs =>
      if q = .code ∧ isSpacing c = true then unspaced .code cs else c :: unspaced (q.next c) cs

theorem unspaced_of_isSpacing {c : Char} (h : isSpacing c = true) (cs : List Char) :
    unspaced .code (c :: cs) = unspaced .code cs :=
  if_pos ⟨rfl, h⟩

theorem unspaced_of_solid {c : Char} (h : isSpacing c = false) (q : Quoting) (cs : List Char) :
    unspaced q (c :: cs) = c :: unspaced (q.next c) cs :=
  if_neg fun hspacing => Bool.false_ne_true (h.symm.trans hspacing.2)

theorem unspaced_of_quoted {q : Quoting} (h : q ≠ .code) (c : Char) (cs : List Char) :
    unspaced q (c :: cs) = c :: unspaced (q.next c) cs :=
  if_neg fun hspacing => h hspacing.1

/-- The text that is left starts where the white space ends. -/
theorem head?_unspaced (cs : List Char) :
    (unspaced .code cs).head? = (cs.dropWhile isSpacing).head? := by
  induction cs with
  | nil => rfl
  | cons c cs ih =>
      cases h : isSpacing c with
      | true => rw [unspaced_of_isSpacing h, ih, List.dropWhile_cons_of_pos h]
      | false =>
          rw [unspaced_of_solid h, List.dropWhile_cons_of_neg (by rw [h]; exact Bool.false_ne_true)]
          rfl

/-- Taking out white space, one text after another. -/
theorem unspaced_append (q : Quoting) (a b : List Char) :
    unspaced q (a ++ b) = unspaced q a ++ unspaced (q.after a) b := by
  induction a generalizing q with
  | nil => rfl
  | cons c a ih =>
      rw [List.cons_append, unspaced, unspaced, Quoting.after_cons]
      split
      · rename_i h
        obtain ⟨rfl, hspacing⟩ := h
        rw [ih, Quoting.next_code_of_isSpacing hspacing]
      · rw [ih]
        rfl

theorem allBlank_unspaced {b : List Char} (hb : AllBlank b) (q : Quoting) :
    AllBlank (unspaced q b) := by
  induction b generalizing q with
  | nil => exact allBlank_nil
  | cons c b ih =>
      obtain ⟨hc, hb⟩ := allBlank_cons.mp hb
      rw [unspaced]
      split
      · exact ih hb .code
      · exact allBlank_cons.mpr ⟨hc, ih hb _⟩

/-! ## Semicolons before closing braces -/

/-- A text without one semicolon, if there is one, right before each closing
    brace outside strings. -/
def unclosed : Quoting → List Char → List Char
  | _, [] => []
  | q, c :: cs =>
      if q = .code ∧ c = ';' ∧ cs.head? = some '}' then unclosed .code cs
      else c :: unclosed (q.next c) cs

theorem unclosed_of_ne {c : Char} (h : c ≠ ';') (q : Quoting) (cs : List Char) :
    unclosed q (c :: cs) = c :: unclosed (q.next c) cs :=
  if_neg fun hdrop => h hdrop.2.1

theorem unclosed_of_quoted {q : Quoting} (h : q ≠ .code) (c : Char) (cs : List Char) :
    unclosed q (c :: cs) = c :: unclosed (q.next c) cs :=
  if_neg fun hdrop => h hdrop.1

/-- White space at the start is kept. -/
theorem unclosed_append_of_allBlank {a : List Char} (ha : AllBlank a) (cs : List Char) :
    unclosed .code (a ++ cs) = a ++ unclosed .code cs := by
  induction a with
  | nil => rfl
  | cons c a ih =>
      obtain ⟨hc, ha⟩ := allBlank_cons.mp ha
      rw [List.cons_append, unclosed_of_ne (ne_of_isBlank hc (by decide)),
        Quoting.next_code_of_not_quote (Quoting.isQuote_of_isBlank hc), ih ha]
      rfl

/-- White space at the end is kept. -/
theorem unclosed_append_allBlank {b : List Char} (hb : AllBlank b) (q : Quoting) (cs : List Char) :
    unclosed q (cs ++ b) = unclosed q cs ++ b := by
  induction cs generalizing q with
  | nil =>
      show unclosed q b = b
      induction b generalizing q with
      | nil => rfl
      | cons c b ih =>
          obtain ⟨hc, hb⟩ := allBlank_cons.mp hb
          rw [unclosed_of_ne (ne_of_isBlank hc (by decide)), ih hb]
  | cons c cs ih =>
      have hhead : (cs ++ b).head? = some '}' ↔ cs.head? = some '}' := by
        cases cs with
        | cons d cs => exact Iff.rfl
        | nil =>
            refine ⟨fun h => ?_, fun h => by cases h⟩
            have hbrace := hb '}' (List.mem_of_mem_head? h)
            cases hbrace
      rw [List.cons_append, unclosed, unclosed, ih, ih]
      simp only [hhead]
      split <;> rfl

/-- **The pen keeps the substance.** -/
theorem unspaced_write (p : Pen) (cs : List Char) :
    unspaced p.quoting (p.write cs) = unclosed p.quoting (unspaced p.quoting cs) := by
  induction cs generalizing p with
  | nil => rfl
  | cons c cs ih =>
      obtain ⟨written, p', hstep, hwrite⟩ := p.exists_step c cs
      rw [hwrite]
      cases hstep with
      | quoted hquoted =>
          rw [unspaced_of_quoted hquoted, unclosed_of_quoted hquoted, List.singleton_append,
            unspaced_of_quoted hquoted]
          exact congrArg (c :: ·) (ih { p with quoting := p.quoting.next c })
      | hold hcode hspacing =>
          have hrest := ih { p with held := true }
          rw [hcode] at hrest ⊢
          rw [unspaced_of_isSpacing hspacing, List.nil_append, ← hrest]
      | put hcode hsolid htight =>
          have hgap : unspaced p.quoting p.gap = [] ∧ p.quoting.after p.gap = .code := by
            rw [hcode, Pen.gap]
            split <;> exact ⟨rfl, rfl⟩
          rw [List.append_assoc, unspaced_append, hgap.1, hgap.2, List.nil_append,
            List.singleton_append, unspaced_of_solid hsolid, unspaced_of_solid hsolid,
            unclosed_of_ne (Pen.ne_of_mem htight (by decide)), ← hcode]
          exact congrArg (c :: ·) (ih ⟨p.quoting.next c, false, false, p.parensAfter c⟩)
      | drop hcode hsemi hcloses =>
          subst hsemi
          have hhead : (unspaced .code cs).head? = some '}' := by
            rw [head?_unspaced]
            exact eq_of_beq hcloses
          rw [hcode, unspaced_of_solid (by decide), unclosed, if_pos ⟨rfl, rfl, hhead⟩]
          exact ih ⟨.code, false, true, p.parens⟩
      | tight hcode htight hstays =>
          have hsolid := (isPunctuation_apart (Pen.isPunctuation_of_tightens htight)).2
          have hkeeps : ¬(Quoting.code = .code ∧ c = ';' ∧
              (unspaced (Quoting.code.next c) cs).head? = some '}') := by
            rintro ⟨-, rfl, hhead⟩
            refine hstays ⟨rfl, beq_iff_eq.mpr ?_⟩
            rw [← head?_unspaced]
            exact hhead
          rw [hcode, List.singleton_append, unspaced_of_solid hsolid, unspaced_of_solid hsolid,
            unclosed, if_neg hkeeps, Pen.next_of_tightens htight]
          exact congrArg (c :: ·) (ih ⟨.code, false, true, p.parens⟩)

/-! ## What is neither -/

/-- Whether a character is neither white space nor a semicolon. -/
def isInk (c : Char) : Bool :=
  !isSpacing c && c != ';'

/-- Taking out white space takes no ink. -/
theorem filter_isInk_unspaced (q : Quoting) (cs : List Char) :
    (unspaced q cs).filter isInk = cs.filter isInk := by
  induction cs generalizing q with
  | nil => rfl
  | cons c cs ih =>
      rw [unspaced]
      split
      · rename_i h
        rw [ih, List.filter_cons_of_neg]
        rw [isInk, h.2]
        exact Bool.false_ne_true
      · rw [List.filter_cons, List.filter_cons, ih]

/-- Taking out semicolons before braces takes no ink. -/
theorem filter_isInk_unclosed (q : Quoting) (cs : List Char) :
    (unclosed q cs).filter isInk = cs.filter isInk := by
  induction cs generalizing q with
  | nil => rfl
  | cons c cs ih =>
      rw [unclosed]
      split
      · rename_i h
        obtain ⟨-, rfl, -⟩ := h
        rw [ih, List.filter_cons_of_neg (by decide)]
      · rw [List.filter_cons, List.filter_cons, ih]

/-! ## String literals -/

/-- The string literals that are closed in a text, in order.  `read` is what
    has been read of the literal that is open. -/
def literalsFrom (read : List Char) (q : Quoting) : List Char → List (List Char)
  | [] => []
  | c :: cs =>
      if q = .code then literalsFrom [c] (q.next c) cs
      else if q.next c = .code then (read ++ [c]) :: literalsFrom [] .code cs
      else literalsFrom (read ++ [c]) (q.next c) cs

/-- **The string literals of a text.** -/
def literals (cs : List Char) : List (List Char) :=
  literalsFrom [] .code cs

/-- Outside strings nothing has been read. -/
theorem literalsFrom_code (read read' : List Char) (cs : List Char) :
    literalsFrom read .code cs = literalsFrom read' .code cs := by
  cases cs <;> rfl

/-- A character outside strings that is no quote is in no literal. -/
theorem literalsFrom_of_not_quote {c : Char} (h : isQuote c = false) (read read' : List Char)
    (cs : List Char) : literalsFrom read .code (c :: cs) = literalsFrom read' .code cs := by
  show literalsFrom [c] (Quoting.code.next c) cs = _
  rw [Quoting.next_code_of_not_quote h, literalsFrom_code]

/-- White space before a text is in no literal. -/
theorem literalsFrom_append_of_allBlank {a : List Char} (ha : AllBlank a) (read read' : List Char)
    (cs : List Char) : literalsFrom read .code (a ++ cs) = literalsFrom read' .code cs := by
  induction a with
  | nil => exact literalsFrom_code _ _ _
  | cons c a ih =>
      obtain ⟨hc, ha⟩ := allBlank_cons.mp ha
      rw [List.cons_append, literalsFrom_of_not_quote (Quoting.isQuote_of_isBlank hc) read read,
        ih ha]

/-- White space after a text closes no literal. -/
theorem literalsFrom_append_allBlank {b : List Char} (hb : AllBlank b) (read : List Char)
    {q : Quoting} (hq : q.Proper) (cs : List Char) :
    literalsFrom read q (cs ++ b) = literalsFrom read q cs := by
  induction cs generalizing read q with
  | nil =>
      show literalsFrom read q b = []
      induction b generalizing read q with
      | nil => rfl
      | cons c b ih =>
          obtain ⟨hc, hb⟩ := allBlank_cons.mp hb
          rw [literalsFrom, ih hb _ (Quoting.proper_next hq c), ih hb _ (q := .code) trivial,
            ih hb _ (Quoting.proper_next hq c)]
          split
          · rfl
          · rename_i hquoted
            rw [if_neg]
            rw [Quoting.next_of_plain hq (Quoting.isQuote_of_isBlank hc)
              (Quoting.ne_backslash_of_isBlank hc), Quoting.settle_eq_code_iff]
            exact hquoted
  | cons c cs ih =>
      rw [List.cons_append, literalsFrom, literalsFrom, ih _ (Quoting.proper_next hq c),
        ih _ (q := .code) trivial, ih _ (Quoting.proper_next hq c)]

/-- **The pen copies literals.** -/
theorem literalsFrom_write (p : Pen) (read : List Char) (cs : List Char) :
    literalsFrom read p.quoting (p.write cs) = literalsFrom read p.quoting cs := by
  induction cs generalizing p read with
  | nil => rfl
  | cons c cs ih =>
      obtain ⟨written, p', hstep, hwrite⟩ := p.exists_step c cs
      rw [hwrite]
      cases hstep with
      | quoted hquoted =>
          have hnext := fun read => ih { p with quoting := p.quoting.next c } read
          rw [List.singleton_append, literalsFrom, literalsFrom, if_neg hquoted, if_neg hquoted]
          split
          · rename_i hcloses
            rw [hcloses] at hnext ⊢
            rw [hnext]
          · exact hnext _
      | hold hcode hspacing =>
          have hquote := isQuote_of_isSpacing hspacing
          have hrest := ih { p with held := true } read
          rw [hcode] at hrest ⊢
          rw [literalsFrom_of_not_quote hquote read read, ← hrest, List.nil_append]
      | put hcode hsolid htight =>
          have hrest := ih ⟨p.quoting.next c, false, false, p.parensAfter c⟩ [c]
          rw [hcode] at hrest ⊢
          rw [List.append_assoc, literalsFrom_append_of_allBlank p.allBlank_gap read read]
          exact hrest
      | drop hcode hsemi hcloses =>
          subst hsemi
          rw [hcode, literalsFrom_of_not_quote (by decide) read read]
          exact ih ⟨.code, false, true, p.parens⟩ read
      | tight hcode htight hstays =>
          have hquote := (isPunctuation_apart (Pen.isPunctuation_of_tightens htight)).1
          rw [hcode, literalsFrom_of_not_quote hquote read read, List.singleton_append,
            literalsFrom_of_not_quote hquote read read]
          exact ih ⟨.code, false, true, p.parens⟩ read

/-! ## Single spaces -/

/-- Outside strings a text has **single spaces** only: no other white space, and
    never two in a row. -/
def SinglySpaced (q : Quoting) (t : List Char) : Prop :=
  ∀ a c b, t = a ++ c :: b → q.after a = .code → isSpacing c = true →
    c = ' ' ∧ ∀ d, b.head? = some d → isSpacing d = false

theorem singlySpaced_cons {q : Quoting} {c : Char} {t : List Char}
    (hc : q = .code → isSpacing c = true →
      c = ' ' ∧ ∀ d, t.head? = some d → isSpacing d = false)
    (ht : SinglySpaced (q.next c) t) : SinglySpaced q (c :: t) := by
  intro a d b hsplit hcode hspacing
  cases a with
  | nil =>
      obtain ⟨rfl, rfl⟩ := List.cons.inj hsplit
      exact hc hcode hspacing
  | cons x a =>
      obtain ⟨rfl, htail⟩ := List.cons.inj hsplit
      exact ht a d b htail hcode hspacing

theorem singlySpaced_cons_of_solid {q : Quoting} {c : Char} {t : List Char}
    (hc : isSpacing c = false) (ht : SinglySpaced (q.next c) t) : SinglySpaced q (c :: t) :=
  singlySpaced_cons (fun _ hspacing => absurd hspacing (by rw [hc]; exact Bool.false_ne_true)) ht

/-- **The pen writes single spaces.** -/
theorem singlySpaced_write (p : Pen) (cs : List Char) :
    SinglySpaced p.quoting (p.write cs) := by
  induction cs generalizing p with
  | nil =>
      intro a c b hsplit
      cases a <;> cases hsplit
  | cons c cs ih =>
      obtain ⟨written, p', hstep, hwrite⟩ := p.exists_step c cs
      rw [hwrite]
      cases hstep with
      | quoted hquoted =>
          exact singlySpaced_cons (fun hcode => absurd hcode hquoted)
            (ih { p with quoting := p.quoting.next c })
      | hold hcode hspacing => exact ih { p with held := true }
      | put hcode hsolid htight =>
          have hrest := singlySpaced_cons_of_solid (q := p.quoting) hsolid
            (ih ⟨p.quoting.next c, false, false, p.parensAfter c⟩)
          rw [List.append_assoc, List.singleton_append, Pen.gap]
          rw [hcode] at hrest ⊢
          split
          · refine singlySpaced_cons (fun _ _ => ⟨rfl, ?_⟩) hrest
            rintro d ⟨rfl⟩
            exact hsolid
          · exact hrest
      | drop hcode hsemi hcloses =>
          rw [hcode]
          exact ih ⟨.code, false, true, p.parens⟩
      | tight hcode htight hstays =>
          have hsolid := (isPunctuation_apart (Pen.isPunctuation_of_tightens htight)).2
          rw [hcode]
          refine singlySpaced_cons_of_solid hsolid ?_
          rw [Pen.next_of_tightens htight]
          exact ih ⟨.code, false, true, p.parens⟩

/-! ## Minification -/

/-- White space at the ends is of no account. -/
theorem trim_unclosed_unspaced {a b : List Char} (ha : AllBlank a) (hb : AllBlank b)
    (cs : List Char) :
    trim (unclosed .code (unspaced .code (a ++ cs ++ b))) =
      trim (unclosed .code (unspaced .code cs)) := by
  rw [List.append_assoc, unspaced_append, Quoting.code_after_allBlank ha, unspaced_append,
    unclosed_append_of_allBlank (allBlank_unspaced ha _),
    unclosed_append_allBlank (allBlank_unspaced hb _), ← List.append_assoc]
  exact trim_append (allBlank_unspaced ha _) (allBlank_unspaced hb _) _

/-- White space around a text adds no literals. -/
theorem literals_append {a b : List Char} (ha : AllBlank a) (hb : AllBlank b) (cs : List Char) :
    literals (a ++ cs ++ b) = literals cs := by
  rw [List.append_assoc]
  exact (literalsFrom_append_of_allBlank ha [] [] (cs ++ b)).trans
    (literalsFrom_append_allBlank hb [] (q := .code) trivial cs)

/-- **Minification changes white space and closing semicolons only.** -/
theorem minify_keeps (css : String) :
    trim (unspaced .code (minify css).toList) =
        trim (unclosed .code (unspaced .code (stripComments css.toList))) ∧
      literals (minify css).toList = literals (stripComments css.toList) ∧
      SinglySpaced .code (minify css).toList ∧
      (minify css).toList.filter isInk = (trim (stripComments css.toList)).filter isInk := by
  obtain ⟨held, hwrite⟩ := minifyChars_eq css.toList
  obtain ⟨a, b, ha, hb, hs, -⟩ := exists_trim (stripComments css.toList)
  have htext : (minify css).toList = minifyChars css.toList := String.toList_ofList
  have hsubstance := unspaced_write ⟨.code, held, true, 0⟩ (trim (stripComments css.toList))
  rw [htext, hwrite]
  refine ⟨?_, ?_, singlySpaced_write _ _, ?_⟩
  · conv => rhs; rw [hs, trim_unclosed_unspaced ha hb]
    exact congrArg trim hsubstance
  · conv => rhs; rw [hs, literals_append ha hb]
    exact literalsFrom_write ⟨.code, held, true, 0⟩ [] _
  · rw [← filter_isInk_unspaced .code, hsubstance, filter_isInk_unclosed, filter_isInk_unspaced]

end PageLoom.Css
