import PageLoom.Css.Minify
import PageLoom.Proofs.Css.Minified

/-!
# The pen — minified texts written from front to back

    Minification keeps what it has written and takes a semicolon back when a
    closing brace follows.  The same text can be written from front to back if
    the pen looks ahead: it leaves out a semicolon when the next character that
    is not white space is a closing brace (`minifyFrom_eq`).

    What a character does is said once (`Pen.Step`): inside a string it is
    copied; white space is held back; a character that needs no space swallows
    the one held back, and a semicolon may be left out; any other character
    comes after the space held back.  Every law of minified texts is an
    induction over these cases (`Pen.exists_step`).

    White space at the ends of the text makes no difference but for a first
    colon: minification writes what the pen writes of the text between
    (`minifyChars_eq`).
-/

namespace PageLoom.Css

open Text

/-! ## Writing -/

/-- Where the pen stands. -/
structure Pen where
  quoting : Quoting := .code
  /-- white space has been read and not yet written -/
  held : Bool := false
  /-- nothing or punctuation stands before, so that a space would mean nothing -/
  quiet : Bool := true
  /-- open parentheses -/
  parens : Nat := 0
  deriving DecidableEq, Repr

/-- Whether the next character that is not white space is a closing brace. -/
def closesNext (rest : List Char) : Bool :=
  (rest.dropWhile isSpacing).head? == some '}'

namespace Pen

/-- The space to be written before a character. -/
def gap (p : Pen) : List Char :=
  if p.held && !p.quiet then [' '] else []

theorem reverse_gap (p : Pen) : p.gap.reverse = p.gap := by
  rw [gap]
  split <;> rfl

/-- Whether a character outside strings swallows the spaces around it. -/
def tightens (p : Pen) (c : Char) (rest : List Char) : Bool :=
  isPunctuation c && !(c = '+' && 0 < p.parens
    || c = ':' && p.held && p.parens = 0 && startsBlock .code rest)

/-- The parentheses open after a character. -/
def parensAfter (p : Pen) (c : Char) : Nat :=
  if c = '(' then p.parens + 1 else if c = ')' then p.parens - 1 else p.parens

/-- **What a character does**: what is written for it, and where the pen stands
    afterwards.  `rest` is the text after it. -/
inductive Step (p : Pen) (c : Char) (rest : List Char) : List Char → Pen → Prop
  | quoted (hquoted : p.quoting ≠ .code) :
      Step p c rest [c] { p with quoting := p.quoting.next c }
  | hold (hcode : p.quoting = .code) (hspacing : isSpacing c = true) :
      Step p c rest [] { p with held := true }
  | put (hcode : p.quoting = .code) (hsolid : isSpacing c = false)
      (htight : p.tightens c rest = false) :
      Step p c rest (p.gap ++ [c]) ⟨p.quoting.next c, false, false, p.parensAfter c⟩
  | drop (hcode : p.quoting = .code) (hsemi : c = ';') (hcloses : closesNext rest = true) :
      Step p c rest [] ⟨.code, false, true, p.parens⟩
  | tight (hcode : p.quoting = .code) (htight : p.tightens c rest = true)
      (hstays : ¬(c = ';' ∧ closesNext rest = true)) :
      Step p c rest [c] ⟨.code, false, true, p.parens⟩

/-- What is written for a character. -/
def writes (p : Pen) (c : Char) (rest : List Char) : List Char :=
  if p.quoting ≠ .code then [c]
  else if isSpacing c then []
  else if !p.tightens c rest then p.gap ++ [c]
  else if c = ';' && closesNext rest then []
  else [c]

/-- Where the pen stands after a character. -/
def next (p : Pen) (c : Char) (rest : List Char) : Pen :=
  if p.quoting ≠ .code then { p with quoting := p.quoting.next c }
  else if isSpacing c then { p with held := true }
  else if !p.tightens c rest then ⟨p.quoting.next c, false, false, p.parensAfter c⟩
  else ⟨.code, false, true, p.parens⟩

/-- **The text written** for a text. -/
def write (p : Pen) : List Char → List Char
  | [] => []
  | c :: rest => p.writes c rest ++ (p.next c rest).write rest

/-- Every character is one step. -/
theorem step (p : Pen) (c : Char) (rest : List Char) :
    p.Step c rest (p.writes c rest) (p.next c rest) := by
  rw [writes, next]
  by_cases hcode : p.quoting = .code
  · rw [if_neg (not_not_intro hcode), if_neg (not_not_intro hcode)]
    cases hspacing : isSpacing c with
    | true => exact .hold hcode hspacing
    | false =>
        rw [if_neg Bool.false_ne_true, if_neg Bool.false_ne_true]
        cases htight : p.tightens c rest with
        | false => exact .put hcode hspacing htight
        | true =>
            have hkeeps : ¬(!true) = true := Bool.false_ne_true
            rw [if_neg hkeeps, if_neg hkeeps]
            split
            · rename_i hdrop
              simp only [Bool.and_eq_true, decide_eq_true_eq] at hdrop
              exact .drop hcode hdrop.1 hdrop.2
            · rename_i hstays
              simp only [Bool.and_eq_true, decide_eq_true_eq] at hstays
              exact .tight hcode htight hstays
  · rw [if_pos hcode, if_pos hcode]
    exact .quoted hcode

/-- **Writing goes step by step.** -/
theorem exists_step (p : Pen) (c : Char) (rest : List Char) :
    ∃ written p', p.Step c rest written p' ∧ p.write (c :: rest) = written ++ p'.write rest :=
  ⟨_, _, p.step c rest, rfl⟩

/-! ## Punctuation -/

/-- A sign that never keeps the spaces around it. -/
theorem tightens_of_mem {c : Char} (h : c ∈ ['{', '}', ';', ',', '>', '~']) (p : Pen)
    (rest : List Char) : p.tightens c rest = true := by
  simp only [List.mem_cons, List.not_mem_nil, or_false] at h
  rcases h with rfl | rfl | rfl | rfl | rfl | rfl <;> rfl

theorem isPunctuation_of_tightens {p : Pen} {c : Char} {rest : List Char}
    (h : p.tightens c rest = true) : isPunctuation c = true :=
  (Bool.and_eq_true_iff.mp h).1

/-- Punctuation stays outside strings. -/
theorem next_of_tightens {p : Pen} {c : Char} {rest : List Char}
    (h : p.tightens c rest = true) : Quoting.code.next c = .code :=
  Quoting.next_code_of_not_quote (isPunctuation_apart (isPunctuation_of_tightens h)).1

/-- A character that keeps its spaces is none of these signs. -/
theorem ne_of_mem {p : Pen} {c d : Char} {rest : List Char} (h : p.tightens c rest = false)
    (hd : d ∈ ['{', '}', ';', ',', '>', '~']) : c ≠ d := by
  rintro rfl
  rw [tightens_of_mem hd] at h
  cases h

/-! ## One character -/

section WriteCons

variable {p : Pen} {c : Char} (rest : List Char)

theorem write_of_quoted (h : p.quoting ≠ .code) :
    p.write (c :: rest) = c :: { p with quoting := p.quoting.next c }.write rest := by
  rw [write, writes, next, if_pos h, if_pos h]
  rfl

theorem write_of_isSpacing (hcode : p.quoting = .code) (h : isSpacing c = true) :
    p.write (c :: rest) = { p with held := true }.write rest := by
  rw [write, writes, next, if_neg (not_not_intro hcode), if_neg (not_not_intro hcode), if_pos h,
    if_pos h]
  rfl

theorem write_of_put (hcode : p.quoting = .code) (hsolid : isSpacing c = false)
    (h : p.tightens c rest = false) :
    p.write (c :: rest) =
      p.gap ++ c :: (⟨p.quoting.next c, false, false, p.parensAfter c⟩ : Pen).write rest := by
  rw [write, writes, next, if_neg (not_not_intro hcode), if_neg (not_not_intro hcode), hsolid, h,
    if_neg Bool.false_ne_true, if_neg Bool.false_ne_true, if_pos Bool.not_false,
    if_pos Bool.not_false, List.append_assoc]
  rfl

theorem write_of_tight (hcode : p.quoting = .code) (h : p.tightens c rest = true)
    (hstays : ¬(c = ';' ∧ closesNext rest = true)) :
    p.write (c :: rest) = c :: (⟨.code, false, true, p.parens⟩ : Pen).write rest := by
  have hsolid := (isPunctuation_apart (isPunctuation_of_tightens h)).2
  have hkeeps : ¬(c = ';' && closesNext rest) = true := by
    rw [Bool.and_eq_true, decide_eq_true_eq]
    exact hstays
  have hneg : ¬(!true) = true := Bool.false_ne_true
  rw [write, writes, next, if_neg (not_not_intro hcode), if_neg (not_not_intro hcode), hsolid, h,
    if_neg Bool.false_ne_true, if_neg Bool.false_ne_true, if_neg hneg, if_neg hneg, if_neg hkeeps]
  rfl

end WriteCons

end Pen

theorem isQuote_of_isSpacing {c : Char} (h : isSpacing c = true) : isQuote c = false :=
  Quoting.isQuote_of_isBlank (isBlank_of_isSpacing h)

/-- White space keeps a scan outside strings. -/
theorem Quoting.next_code_of_isSpacing {c : Char} (h : isSpacing c = true) :
    code.next c = .code :=
  next_code_of_not_quote (isQuote_of_isSpacing h)

theorem closesNext_of_isSpacing {c : Char} (h : isSpacing c = true) (rest : List Char) :
    closesNext (c :: rest) = closesNext rest := by
  rw [closesNext, List.dropWhile_cons_of_pos h]
  rfl

theorem closesNext_of_not {c : Char} (h : isSpacing c = false) (rest : List Char) :
    closesNext (c :: rest) = (c == '}') := by
  rw [closesNext, List.dropWhile_cons_of_neg (by rw [h]; exact Bool.false_ne_true)]
  rfl

/-! ## Minification writes as the pen does -/

/-- What ends a string is a quote. -/
theorem isQuote_of_closing {q : Quoting} {c : Char} (hq : q.Proper) (hquoted : q ≠ .code)
    (hcode : q.next c = .code) : isQuote c = true := by
  cases q with
  | code => exact absurd rfl hquoted
  | inside quote =>
      rw [Quoting.next] at hcode
      split at hcode
      · cases hcode
      · split at hcode
        · rename_i hc
          rw [hc]
          exact hq
        · cases hcode
  | escaped quote => cases hcode

/-- A text written, last character first, without a semicolon at its end. -/
def withoutSemicolon : List Char → List Char
  | ';' :: written => written
  | written => written

theorem withoutSemicolon_cons {c : Char} (h : c ≠ ';') (written : List Char) :
    withoutSemicolon (c :: written) = c :: written := by
  rw [withoutSemicolon]
  rintro rest hrest
  exact h (List.cons.inj hrest).1

/-- **Minification and the pen** stand at the same place. -/
structure Minifying.Beside (m : Minifying) (p : Pen) : Prop where
  proper : p.quoting.Proper
  quoting : m.quoting = p.quoting
  held : m.pendingSpace = p.held
  quiet : (m.afterPunctuation || m.written.isEmpty) = p.quiet
  parens : m.parens = p.parens
  opened : p.quoting ≠ .code → m.written ≠ []

namespace Minifying.Beside

variable {m : Minifying} {p : Pen}

theorem start : Minifying.start.Beside {} where
  proper := trivial
  quoting := rfl
  held := rfl
  quiet := rfl
  parens := rfl
  opened := fun h => absurd rfl h

/-- The space held back is the gap of the pen. -/
theorem written_flush (h : m.Beside p) : m.flush.written = p.gap ++ m.written := by
  have hgap : (m.pendingSpace && !m.afterPunctuation && !m.written.isEmpty) =
      (p.held && !p.quiet) := by
    rw [← h.quiet, h.held, Bool.not_or, Bool.and_assoc]
  rw [Minifying.flush, Pen.gap, hgap]
  split <;> rfl

theorem written_putTight (m : Minifying) (c : Char) :
    (m.putTight c).written = c :: if c = '}' then withoutSemicolon m.written else m.written := by
  rw [Minifying.putTight]
  dsimp only
  split
  · rename_i rest hwritten
    rw [hwritten]
    rfl
  · rename_i hwritten
    rw [withoutSemicolon]
    · split <;> rfl
    · exact hwritten

/-- **A character that keeps its spaces** is put after the one held back. -/
theorem minifyCode_put (h : m.Beside p) {c : Char} {rest : List Char}
    (hcode : p.quoting = .code) (hspacing : isSpacing c = false)
    (htight : p.tightens c rest = false) :
    minifyCode m c rest =
      { m.put c with quoting := p.quoting.next c, parens := p.parensAfter c } := by
  have hflush : ∀ m : Minifying, m.flush.parens = m.parens ∧ m.flush.quoting = m.quoting := by
    intro m
    rw [Minifying.flush]
    split <;> exact ⟨rfl, rfl⟩
  have hparens : (m.put c).parens = p.parens := (hflush m).1.trans h.parens
  have hquoting : (m.put c).quoting = .code := (hflush m).2.trans (h.quoting.trans hcode)
  rw [minifyCode, hcode]
  by_cases hquote : isQuote c = true
  · rw [if_pos hquote, Pen.parensAfter, if_neg (by rintro rfl; cases hquote),
      if_neg (by rintro rfl; cases hquote), ← hparens]
    exact congrArg (fun q => { m.put c with quoting := q }) (if_pos hquote).symm
  have hnext : Quoting.code.next c = .code :=
    Quoting.next_code_of_not_quote (Bool.eq_false_iff.mpr hquote)
  rw [if_neg hquote, if_neg (by rw [hspacing]; exact Bool.false_ne_true), hnext]
  by_cases hpunctuation : isPunctuation c = true
  · rw [if_pos hpunctuation, if_pos]
    · rw [Pen.parensAfter, if_neg (by rintro rfl; cases hpunctuation),
        if_neg (by rintro rfl; cases hpunctuation), ← hparens, ← hquoting]
    · rw [Pen.tightens, hpunctuation, Bool.true_and, Bool.not_eq_false'] at htight
      rw [h.parens, h.held]
      exact htight
  · rw [if_neg hpunctuation, Pen.parensAfter, ← h.parens]
    split
    · rw [← hquoting]
    · split
      · rw [← hquoting]
      · rw [← hquoting, h.parens, ← hparens]

/-- **Any other sign** swallows it. -/
theorem minifyCode_tight (h : m.Beside p) {c : Char} {rest : List Char}
    (htight : p.tightens c rest = true) : minifyCode m c rest = m.putTight c := by
  have hpunctuation := Pen.isPunctuation_of_tightens htight
  obtain ⟨hquote, hspacing⟩ := isPunctuation_apart hpunctuation
  rw [minifyCode, hquote, hspacing, if_neg Bool.false_ne_true, if_neg Bool.false_ne_true,
    if_pos hpunctuation, if_neg]
  rw [Pen.tightens, hpunctuation, Bool.true_and, Bool.not_eq_true'] at htight
  rw [h.parens, h.held, htight]
  exact Bool.false_ne_true

/-- After punctuation the two stand together again. -/
theorem putTight (h : m.Beside p) (hcode : p.quoting = .code) (c : Char) :
    (m.putTight c).Beside ⟨.code, false, true, p.parens⟩ where
  proper := trivial
  quoting := h.quoting.trans hcode
  held := rfl
  quiet := rfl
  parens := h.parens
  opened := fun hquoted => absurd rfl hquoted

end Minifying.Beside

/-- **Minification and the pen write the same**, but for a semicolon before a
    closing brace: minification takes it back. -/
theorem minifyFrom_eq {m : Minifying} {p : Pen} (h : m.Beside p) (cs : List Char) :
    minifyFrom m cs = (p.write cs).reverse ++
      if p.quoting = .code ∧ closesNext cs = true then withoutSemicolon m.written
      else m.written := by
  induction cs generalizing m p with
  | nil => exact (if_neg fun hcloses => Bool.false_ne_true hcloses.2).symm
  | cons c rest ih =>
      obtain ⟨written, p', hstep, hwrite⟩ := p.exists_step c rest
      rw [minifyFrom_cons, Minifying.next, hwrite, List.reverse_append, List.append_assoc,
        h.quoting]
      cases hstep with
      | quoted hquoted =>
          rw [if_neg hquoted, if_neg fun hcode => hquoted hcode.1]
          have hbeside : Minifying.Beside
              { m with written := c :: m.written, quoting := p.quoting.next c }
              { p with quoting := p.quoting.next c } :=
            { proper := Quoting.proper_next h.proper c
              quoting := rfl
              held := h.held
              quiet := by
                have hquiet := h.quiet
                rw [List.isEmpty_eq_false_iff.mpr (h.opened hquoted)] at hquiet
                exact hquiet
              parens := h.parens
              opened := fun _ => List.cons_ne_nil _ _ }
          rw [ih hbeside]
          -- a string ends in a quote, which is no semicolon
          split
          · rename_i hcode
            have hquote := isQuote_of_closing h.proper hquoted hcode.1
            rw [withoutSemicolon_cons (by rintro rfl; cases hquote)]
            rfl
          · rfl
      | hold hcode hspacing =>
          have hhold : minifyCode m c rest = { m with pendingSpace := true } := by
            rw [minifyCode, if_neg, if_pos hspacing]
            rw [isQuote_of_isSpacing hspacing]
            exact Bool.false_ne_true
          have hbeside : Minifying.Beside { m with pendingSpace := true } { p with held := true } :=
            { h with held := rfl }
          rw [if_pos hcode, hhold, ih hbeside, closesNext_of_isSpacing hspacing]
          rfl
      | put hcode hsolid htight =>
          have hbeside : Minifying.Beside
              { m.put c with quoting := p.quoting.next c, parens := p.parensAfter c }
              ⟨p.quoting.next c, false, false, p.parensAfter c⟩ :=
            { proper := Quoting.proper_next h.proper c
              quoting := rfl
              held := Minifying.flush_pendingSpace m
              quiet := rfl
              parens := rfl
              opened := fun _ => List.cons_ne_nil _ _ }
          have hwritten : (m.put c).written = c :: (p.gap ++ m.written) :=
            congrArg (c :: ·) h.written_flush
          have hopen : ¬(p.quoting = .code ∧ closesNext (c :: rest) = true) := by
            rw [closesNext_of_not hsolid]
            exact fun hcloses => Pen.ne_of_mem htight (by decide) (eq_of_beq hcloses.2)
          rw [if_pos hcode, h.minifyCode_put hcode hsolid htight, ih hbeside, if_neg hopen]
          show _ ++ ite _ (withoutSemicolon (m.put c).written) (m.put c).written = _
          rw [hwritten, withoutSemicolon_cons (Pen.ne_of_mem htight (by decide)), ite_self,
            List.reverse_append, Pen.reverse_gap]
          rfl
      | drop hcode hsemi hcloses =>
          subst hsemi
          have htight : p.tightens ';' rest = true := Pen.tightens_of_mem (by decide) p rest
          have hopen : ¬(p.quoting = .code ∧ closesNext (';' :: rest) = true) := fun h =>
            Bool.false_ne_true h.2
          -- the semicolon is written, and the brace takes it back
          rw [if_pos hcode, h.minifyCode_tight htight, ih (h.putTight hcode ';'),
            if_pos ⟨rfl, hcloses⟩, if_neg hopen, Minifying.Beside.written_putTight,
            if_neg (by decide)]
          rfl
      | tight hcode htight hstays =>
          have hsolid := (isPunctuation_apart (Pen.isPunctuation_of_tightens htight)).2
          rw [if_pos hcode, h.minifyCode_tight htight, ih (h.putTight hcode c),
            Minifying.Beside.written_putTight, closesNext_of_not hsolid]
          have htail : (if Quoting.code = .code ∧ closesNext rest = true then
              withoutSemicolon (c :: if c = '}' then withoutSemicolon m.written else m.written)
              else c :: if c = '}' then withoutSemicolon m.written else m.written) =
              c :: if c = '}' then withoutSemicolon m.written else m.written := by
            split
            · rename_i hcloses
              exact withoutSemicolon_cons (fun hsemi => hstays ⟨hsemi, hcloses.2⟩) _
            · rfl
          rw [htail, hcode]
          simp only [beq_iff_eq, true_and]
          rfl

/-! ## White space at the ends -/

/-- White space is no punctuation. -/
theorem not_punctuation_of_isBlank {c : Char} (h : isBlank c = true) : isPunctuation c = false := by
  cases hc : isPunctuation c with
  | false => rfl
  | true =>
      simp only [isPunctuation, Bool.or_eq_true, beq_iff_eq] at hc
      rcases hc with ((((((rfl | rfl) | rfl) | rfl) | rfl) | rfl) | rfl) | rfl <;>
        exact absurd h (by decide)

section Ends

variable {a b : List Char} (ha : AllBlank a) (hb : AllBlank b)

include hb in
/-- White space at the end is not seen ahead. -/
theorem startsBlock_append_allBlank (q : Quoting) (cs : List Char) :
    startsBlock q (cs ++ b) = startsBlock q cs := by
  induction cs generalizing q with
  | nil =>
      show startsBlock q b = false
      induction b generalizing q with
      | nil => rfl
      | cons c b ih =>
          obtain ⟨hc, hb⟩ := allBlank_cons.mp hb
          have hne : ∀ d, isBlank d = false → c ≠ d := fun d => ne_of_isBlank hc
          rw [startsBlock]
          simp only [hne '{' (by decide), hne ';' (by decide), hne '}' (by decide), decide_false,
            Bool.and_false, Bool.or_self, if_neg Bool.false_ne_true]
          exact ih hb (q.next c)
  | cons c cs ih =>
      rw [List.cons_append, startsBlock, startsBlock, ih]

include hb in
theorem closesNext_append_allBlank (cs : List Char) : closesNext (cs ++ b) = closesNext cs := by
  induction cs with
  | nil =>
      show closesNext b = false
      induction b with
      | nil => rfl
      | cons c b ih =>
          obtain ⟨hc, hb⟩ := allBlank_cons.mp hb
          cases hspacing : isSpacing c with
          | true => rw [closesNext_of_isSpacing hspacing, ih hb]
          | false =>
              rw [closesNext_of_not hspacing]
              exact beq_false_of_ne (ne_of_isBlank hc (by decide))
  | cons c cs ih =>
      cases hspacing : isSpacing c with
      | true =>
          rw [List.cons_append, closesNext_of_isSpacing hspacing, closesNext_of_isSpacing hspacing,
            ih]
      | false => rw [List.cons_append, closesNext_of_not hspacing, closesNext_of_not hspacing]

namespace Pen

theorem tightens_of_isBlank {c : Char} (h : isBlank c = true) (p : Pen) (rest : List Char) :
    p.tightens c rest = false := by
  rw [tightens, not_punctuation_of_isBlank h, Bool.false_and]

theorem allBlank_gap (p : Pen) : AllBlank p.gap := by
  rw [gap]
  split
  · exact fun c hc => (List.mem_singleton.mp hc) ▸ (by decide)
  · exact allBlank_nil

include hb in
/-- White space is written as white space. -/
theorem allBlank_write (p : Pen) : AllBlank (p.write b) := by
  induction b generalizing p with
  | nil => exact allBlank_nil
  | cons c b ih =>
      obtain ⟨hc, hb⟩ := allBlank_cons.mp hb
      obtain ⟨written, p', hstep, hwrite⟩ := p.exists_step c b
      rw [hwrite]
      refine allBlank_append.mpr ⟨?_, ih hb p'⟩
      have hsingle : AllBlank [c] := allBlank_cons.mpr ⟨hc, allBlank_nil⟩
      cases hstep with
      | quoted hquoted => exact hsingle
      | hold hcode hspacing => exact allBlank_nil
      | put hcode hsolid htight => exact allBlank_append.mpr ⟨p.allBlank_gap, hsingle⟩
      | drop hcode hsemi hcloses => exact allBlank_nil
      | tight hcode htight hstays => exact hsingle

include hb in
/-- **White space at the end** does not change what is written before it. -/
theorem exists_write_append (p : Pen) (cs : List Char) :
    ∃ g, AllBlank g ∧ p.write (cs ++ b) = p.write cs ++ g := by
  induction cs generalizing p with
  | nil => exact ⟨p.write b, allBlank_write hb p, rfl⟩
  | cons c cs ih =>
      have htightens : p.tightens c (cs ++ b) = p.tightens c cs := by
        rw [tightens, startsBlock_append_allBlank hb, tightens]
      have hwrites : p.writes c (cs ++ b) = p.writes c cs := by
        rw [writes, htightens, closesNext_append_allBlank hb, writes]
      have hnext : p.next c (cs ++ b) = p.next c cs := by
        rw [next, htightens, next]
      obtain ⟨g, hg, hwrite⟩ := ih (p.next c cs)
      refine ⟨g, hg, ?_⟩
      rw [List.cons_append, write, hwrites, hnext, hwrite, write, List.append_assoc]

/-- A pen that is not quiet writes the space held back, and is quiet for the
    rest. -/
theorem exists_write_quiet (p : Pen) (hcode : p.quoting = .code) {cs : List Char}
    (hcs : ∀ c, cs.head? = some c → isSpacing c = false) :
    ∃ g, AllBlank g ∧ p.write cs = g ++ { p with quiet := true }.write cs := by
  cases cs with
  | nil => exact ⟨[], allBlank_nil, rfl⟩
  | cons c cs =>
      have hsolid := hcs c rfl
      have hspacing : ¬isSpacing c = true := by
        rw [hsolid]
        exact Bool.false_ne_true
      have htightens : { p with quiet := true }.tightens c cs = p.tightens c cs := rfl
      have hnext : { p with quiet := true }.next c cs = p.next c cs := by
        rw [next, if_neg (not_not_intro hcode), if_neg hspacing, htightens, next,
          if_neg (not_not_intro hcode), if_neg hspacing]
        rfl
      have hquiet : { p with quiet := true }.gap = [] := by
        rw [gap, Bool.not_true, Bool.and_false]
        rfl
      rw [write, write, hnext, writes, writes, htightens, if_neg (not_not_intro hcode),
        if_neg hspacing, if_neg (not_not_intro hcode), if_neg hspacing, hquiet]
      split
      · exact ⟨p.gap, p.allBlank_gap, List.append_assoc _ _ _⟩
      · exact ⟨[], allBlank_nil, rfl⟩

include ha in
/-- **White space at the start** is written as white space, and leaves the pen
    quiet. -/
theorem exists_append_write (p : Pen) (hcode : p.quoting = .code) {cs : List Char}
    (hcs : ∀ c, cs.head? = some c → isSpacing c = false) :
    ∃ g held, AllBlank g ∧
      p.write (a ++ cs) = g ++ (⟨.code, held, true, p.parens⟩ : Pen).write cs := by
  induction a generalizing p with
  | nil =>
      obtain ⟨g, hg, hwrite⟩ := p.exists_write_quiet hcode hcs
      rw [hcode] at hwrite
      exact ⟨g, p.held, hg, hwrite⟩
  | cons c a ih =>
      obtain ⟨hc, ha⟩ := allBlank_cons.mp ha
      obtain ⟨written, p', hstep, hwrite⟩ := p.exists_step c (a ++ cs)
      have htight := tightens_of_isBlank hc p (a ++ cs)
      rw [List.cons_append, hwrite]
      cases hstep with
      | quoted hquoted => exact absurd hcode hquoted
      | hold _ hspacing => exact ih ha _ hcode
      | put _ hsolid _ =>
          have hnext : p.quoting.next c = .code := by
            rw [hcode]
            exact Quoting.next_code_of_not_quote (Quoting.isQuote_of_isBlank hc)
          have hparens : p.parensAfter c = p.parens := by
            rw [parensAfter, if_neg (ne_of_isBlank hc (by decide)),
              if_neg (ne_of_isBlank hc (by decide))]
          obtain ⟨g, held, hg, hwrite'⟩ :=
            ih ha ⟨p.quoting.next c, false, false, p.parensAfter c⟩ hnext
          refine ⟨p.gap ++ [c] ++ g, held, ?_, ?_⟩
          · exact allBlank_append.mpr ⟨allBlank_append.mpr
              ⟨p.allBlank_gap, allBlank_cons.mpr ⟨hc, allBlank_nil⟩⟩, hg⟩
          · rw [hwrite', List.append_assoc _ g, ← hparens]
      | drop _ hsemi _ => exact absurd hsemi (ne_of_isBlank hc (by decide))
      | tight _ htight' _ =>
          rw [htight] at htight'
          cases htight'

/-- A closing brace that comes next is written next. -/
theorem head?_write_of_closesNext (p : Pen) (hcode : p.quoting = .code) {cs : List Char}
    (h : closesNext cs = true) : (p.write cs).head? = some '}' := by
  induction cs generalizing p with
  | nil => cases h
  | cons c cs ih =>
      obtain ⟨written, p', hstep, hwrite⟩ := p.exists_step c cs
      rw [hwrite]
      cases hstep with
      | quoted hquoted => exact absurd hcode hquoted
      | hold _ hspacing =>
          rw [closesNext_of_isSpacing hspacing] at h
          exact ih _ hcode h
      | put _ hsolid htight =>
          rw [closesNext_of_not hsolid] at h
          exact absurd (eq_of_beq h) (ne_of_mem htight (by decide))
      | drop _ hsemi _ =>
          subst hsemi
          cases h
      | tight _ htight _ =>
          rw [closesNext_of_not (isPunctuation_apart (isPunctuation_of_tightens htight)).2] at h
          exact congrArg some (eq_of_beq h)

/-- A quiet pen writes no white space first, if there is none. -/
theorem head?_write_of_quiet {p : Pen} (hcode : p.quoting = .code) (hquiet : p.quiet = true)
    {cs : List Char} (hcs : ∀ c, cs.head? = some c → isBlank c = false) :
    ∀ c, (p.write cs).head? = some c → isBlank c = false := by
  cases cs with
  | nil => exact fun c hc => by cases hc
  | cons c cs =>
      have hc := hcs c rfl
      obtain ⟨written, p', hstep, hwrite⟩ := p.exists_step c cs
      rw [hwrite]
      cases hstep with
      | quoted hquoted => exact absurd hcode hquoted
      | hold _ hspacing =>
          rw [isBlank_of_isSpacing hspacing] at hc
          cases hc
      | put _ hsolid htight =>
          rw [gap, hquiet, Bool.not_true, Bool.and_false]
          rintro d ⟨rfl⟩
          exact hc
      | drop _ hsemi hcloses =>
          rw [List.nil_append, head?_write_of_closesNext _ rfl hcloses]
          rintro d ⟨rfl⟩
          decide
      | tight _ htight _ =>
          rintro d ⟨rfl⟩
          exact hc

/-- The last character is written last. -/
theorem getLast?_write (p : Pen) {cs : List Char} {d : Char} (h : cs.getLast? = some d)
    (hd : isBlank d = false) : (p.write cs).getLast? = some d := by
  induction cs generalizing p with
  | nil => cases h
  | cons c cs ih =>
      obtain ⟨written, p', hstep, hwrite⟩ := p.exists_step c cs
      rw [hwrite]
      cases cs with
      | cons c' cs' =>
          rw [List.getLast?_append, ih p' h]
          rfl
      | nil =>
          obtain rfl : c = d := Option.some.inj h
          cases hstep with
          | quoted hquoted => rfl
          | hold _ hspacing =>
              rw [isBlank_of_isSpacing hspacing] at hd
              cases hd
          | put _ hsolid htight => exact (congrArg _ (List.append_nil _)).trans List.getLast?_concat
          | drop _ hsemi hcloses => cases hcloses
          | tight _ htight _ => rfl

/-- **A text with solid ends** is written with solid ends. -/
theorem solid_write {p : Pen} (hcode : p.quoting = .code) (hquiet : p.quiet = true)
    {cs : List Char} (hcs : Solid cs) : Solid (p.write cs) := by
  refine ⟨head?_write_of_quiet hcode hquiet hcs.1, ?_⟩
  cases hlast : cs.getLast? with
  | none =>
      rw [List.getLast?_eq_none_iff.mp hlast]
      exact fun c hc => by cases hc
  | some d =>
      have hd := hcs.2 d hlast
      rw [p.getLast?_write hlast hd]
      rintro c ⟨rfl⟩
      exact hd

end Pen

end Ends

/-- Minification is writing the text without comments, and trimming. -/
theorem minifyChars_eq_trim (css : List Char) :
    minifyChars css = trim (({} : Pen).write (stripComments css)) := by
  have hnone : withoutSemicolon Minifying.start.written = Minifying.start.written := rfl
  rw [minifyChars, minifyFrom_eq Minifying.Beside.start, hnone, ite_self]
  exact congrArg trim ((congrArg List.reverse (List.append_nil _)).trans (List.reverse_reverse _))

/-- **Minification is writing**, from front to back, the text without comments
    and without white space at its ends. -/
theorem minifyChars_eq (css : List Char) :
    ∃ held, minifyChars css =
      (⟨.code, held, true, 0⟩ : Pen).write (trim (stripComments css)) := by
  obtain ⟨a, b, ha, hb, hs, hsolid⟩ := exists_trim (stripComments css)
  have hspacing : ∀ c, (trim (stripComments css)).head? = some c → isSpacing c = false := by
    intro c hc
    refine Bool.eq_false_iff.mpr fun hspacing => ?_
    exact Bool.false_ne_true ((hsolid.1 c hc).symm.trans (isBlank_of_isSpacing hspacing))
  obtain ⟨g', hg', htail⟩ := ({} : Pen).exists_write_append hb (a ++ trim (stripComments css))
  obtain ⟨g, held, hg, hlead⟩ := ({} : Pen).exists_append_write ha rfl hspacing
  refine ⟨held, ?_⟩
  rw [minifyChars_eq_trim]
  conv => lhs; rw [hs, htail, hlead]
  exact trim_between hg (Pen.solid_write rfl rfl hsolid) hg'

end PageLoom.Css
