import PageLoom.Proofs.Css.Lexing
import PageLoom.Proofs.Css.Scan
import PageLoom.Proofs.Text.Letters

/-!
# Going on — places from which a text reads alike

    Two places are as good as each other when the rest of a text is sound
    from both or from neither, and plain from the one if it is from the
    other (`Leads`).  A character that counts for no bracket leads from one
    place to the next, a run of such characters over the whole run.

    A name leads to the inside of a name, and what follows it is read as in
    fresh code, unless the name is `url` and a bracket follows
    (`Mode.next_after_name`).  So a token is described by the brackets it
    opens and closes between fresh code and fresh code (`Acts`).
-/

namespace PageLoom.Css

open Text Token

/-! ## Characters -/

theorem ne_of_isNameChar {c d : Char} (h : isNameChar c = true) (hd : isNameChar d = false) :
    c ≠ d := by
  rintro rfl
  exact Bool.false_ne_true (hd.symm.trans h)

theorem isQuote_of_isNameChar {c : Char} (h : isNameChar c = true) : isQuote c = false := by
  cases hq : isQuote c with
  | false => rfl
  | true =>
      simp only [isQuote, Bool.or_eq_true, beq_iff_eq] at hq
      rcases hq with rfl | rfl <;> exact absurd h (by decide)

theorem turn_other {c : Char} (h : c ∉ ['(', ')', '[', ']', '{', '}']) (stack : List Bracket) :
    turn stack c = some stack := by
  simp only [List.mem_cons, List.not_mem_nil, or_false, not_or] at h
  obtain ⟨h1, h2, h3, h4, h5, h6⟩ := h
  rw [turn, if_neg h1, if_neg h3, if_neg h5, if_neg h2, if_neg h4, if_neg h6]

theorem not_bracket_of_isNameChar {c : Char} (h : isNameChar c = true) :
    c ∉ ['(', ')', '[', ']', '{', '}'] := by
  intro hmem
  simp only [List.mem_cons, List.not_mem_nil, or_false] at hmem
  rcases hmem with rfl | rfl | rfl | rfl | rfl | rfl <;> exact absurd h (by decide)

theorem isNameChar_of_isDigit {c : Char} (h : c.isDigit = true) : isNameChar c = true := by
  rw [isNameChar, h, Bool.or_true, Bool.true_or]

theorem ne_of_isDigit {c d : Char} (h : c.isDigit = true) (hd : d.isDigit = false) : c ≠ d := by
  rintro rfl
  exact Bool.false_ne_true (hd.symm.trans h)

/-- A character that starts a name starts one whatever follows. -/
theorem startsName_of_isNameStart {c : Char} (h : isNameStart c = true) (t : List Char) :
    startsName (c :: t) = true := by
  have hdash : c ≠ '-' := by
    rintro rfl
    exact absurd h (by decide)
  have hslash : c ≠ '\\' := by
    rintro rfl
    exact absurd h (by decide)
  unfold startsName
  split
  · rename_i heq
    exact absurd (List.cons.inj heq).1 hdash
  · rename_i heq
    exact absurd (List.cons.inj heq).1 hslash
  · rename_i heq
    exact (List.cons.inj heq).1 ▸ h
  · rename_i heq
    cases heq

/-- White space is no bracket. -/
theorem not_bracket_of_isBlank {c : Char} (h : isBlank c = true) :
    c ∉ ['(', ')', '[', ']', '{', '}'] := by
  intro hmem
  simp only [List.mem_cons, List.not_mem_nil, or_false] at hmem
  rcases hmem with rfl | rfl | rfl | rfl | rfl | rfl <;> exact absurd h (by decide)

theorem isBlank_of_isSpace {c : Char} (h : isSpace c = true) : isBlank c = true := by
  simp only [isSpace, isNewline, Bool.or_eq_true, beq_iff_eq] at h
  rcases h with (rfl | rfl) | (rfl | rfl) | rfl <;> decide

theorem not_bracket_of_isSpace {c : Char} (h : isSpace c = true) :
    c ∉ ['(', ')', '[', ']', '{', '}'] :=
  not_bracket_of_isBlank (isBlank_of_isSpace h)

/-- White space between tokens is no part of a name. -/
theorem not_foreign_of_isSpace {c : Char} (h : isSpace c = true) : Mode.isForeign c = false := by
  simp only [isSpace, isNewline, Bool.or_eq_true, beq_iff_eq] at h
  rcases h with (rfl | rfl) | (rfl | rfl) | rfl <;> decide

/-! ## Names -/

namespace Recent

/-- What a text of code amounts to. -/
def after (r : Recent) (t : List Char) : Recent :=
  t.foldl next r

/-- A character of a name, unless it may belong to `<!--`. -/
theorem next_of_isNameChar {r : Recent} (hbang : r ≠ .bang) (hdash : r ≠ .dash) {c : Char}
    (h : isNameChar c = true) : r.next c = r.letter c.toLower := by
  have h1 : c ≠ '/' := ne_of_isNameChar h (by decide)
  have h2 : c ≠ '<' := ne_of_isNameChar h (by decide)
  have h3 : c ≠ '!' := ne_of_isNameChar h (by decide)
  rw [next, if_neg h1, if_neg h2, if_neg h3]
  by_cases h4 : c = '-'
  · subst h4
    rw [if_pos rfl]
    cases r with
    | bang => exact absurd rfl hbang
    | dash => exact absurd rfl hdash
    | _ => rfl
  · rw [if_neg h4, h]
    rfl

theorem word_next {c : Char} (h : isNameChar c = true) : word.next c = .word :=
  next_of_isNameChar (by decide) (by decide) h

theorem word_after {t : List Char} (h : ∀ c ∈ t, isNameChar c = true) : word.after t = .word := by
  induction t with
  | nil => rfl
  | cons c t ih =>
      obtain ⟨hc, ht⟩ := List.forall_mem_cons.mp h
      show (word.next c).after t = .word
      rw [word_next hc]
      exact ih ht

/-- What a name amounts to. -/
def IsName (r : Recent) : Prop :=
  r ∈ [word, u, ur, url]

instance (r : Recent) : Decidable r.IsName :=
  inferInstanceAs (Decidable (r ∈ _))

/-- **What a name amounts to**: it is read as `url` when it is that, in any
    letter case. -/
theorem fresh_after_name {c : Char} {t : List Char} (h : ∀ d ∈ c :: t, isNameChar d = true) :
    (fresh.after (c :: t)).IsName ∧
      (fresh.after (c :: t) = .url ↔ (c :: t).map Char.toLower = ['u', 'r', 'l']) := by
  obtain ⟨hc, ht⟩ := List.forall_mem_cons.mp h
  have hfirst : fresh.after (c :: t) = (fresh.letter c.toLower).after t := by
    show (fresh.next c).after t = _
    rw [next_of_isNameChar (by decide) (by decide) hc]
  -- once the letters differ, the name stays another one
  have hother : ∀ {s : List Char}, (∀ d ∈ s, isNameChar d = true) →
      (word.after s).IsName ∧ ¬word.after s = .url := by
    intro s hs
    rw [word_after hs]
    decide
  rw [hfirst]
  simp only [letter, List.map_cons, List.cons.injEq]
  by_cases hu : c.toLower = 'u'
  · rw [if_pos hu]
    cases t with
    | nil => simp [after, IsName]
    | cons d t =>
        obtain ⟨hd, ht⟩ := List.forall_mem_cons.mp ht
        show ((u.next d).after t).IsName ∧ ((u.next d).after t = .url ↔ _)
        rw [next_of_isNameChar (by decide) (by decide) hd]
        simp only [letter, List.map_cons, List.cons.injEq]
        by_cases hr : d.toLower = 'r'
        · rw [if_pos hr]
          cases t with
          | nil => simp [after, IsName]
          | cons e t =>
              obtain ⟨he, ht⟩ := List.forall_mem_cons.mp ht
              show ((ur.next e).after t).IsName ∧ ((ur.next e).after t = .url ↔ _)
              rw [next_of_isNameChar (by decide) (by decide) he]
              simp only [letter, List.map_cons, List.cons.injEq]
              by_cases hl : e.toLower = 'l'
              · rw [if_pos hl]
                cases t with
                | nil => simp [after, IsName, hu, hr, hl]
                | cons f t =>
                    obtain ⟨hf, ht⟩ := List.forall_mem_cons.mp ht
                    show ((url.next f).after t).IsName ∧ ((url.next f).after t = .url ↔ _)
                    rw [next_of_isNameChar (by decide) (by decide) hf]
                    refine ⟨(hother ht).1, iff_of_false (hother ht).2 ?_⟩
                    simp
              · rw [if_neg hl]
                exact ⟨(hother ht).1, iff_of_false (hother ht).2 fun h => hl h.2.2.1⟩
        · rw [if_neg hr]
          exact ⟨(hother ht).1, iff_of_false (hother ht).2 fun h => hr h.2.1⟩
  · rw [if_neg hu]
    exact ⟨(hother ht).1, iff_of_false (hother ht).2 fun h => hu h.1⟩

end Recent

theorem Recent.next_of_isDigit (r : Recent) {c : Char} (h : c.isDigit = true) :
    r.next c = .word := by
  have hname := isNameChar_of_isDigit h
  have hletter : ∀ d : Char, d.isDigit = false → c.toLower ≠ d := by
    intro d hd
    rw [toLower_of_isDigit h]
    exact ne_of_isDigit h hd
  rw [next, if_neg (ne_of_isDigit h (by decide)), if_neg (ne_of_isDigit h (by decide)),
    if_neg (ne_of_isDigit h (by decide)), if_neg (ne_of_isDigit h (by decide)), hname]
  show r.letter c.toLower = .word
  cases r <;> simp only [letter, if_neg (hletter 'u' (by decide)), if_neg (hletter 'r' (by decide)),
    if_neg (hletter 'l' (by decide))]

/-- What is no part of a name is read after a name as in fresh code. -/
theorem Recent.next_after_name {r : Recent} (hr : r.IsName) {c : Char}
    (hc : isNameChar c = false) : r.next c = Recent.fresh.next c := by
  by_cases h : c ∈ ['/', '<', '!', '@', '#']
  · simp only [List.mem_cons, List.not_mem_nil, or_false] at h
    revert r
    rcases h with rfl | rfl | rfl | rfl | rfl <;> intro r hr <;> cases r <;> revert hr <;> decide
  · simp only [List.mem_cons, List.not_mem_nil, or_false, not_or] at h
    obtain ⟨h1, h2, h3, h4, h5⟩ := h
    have h6 : c ≠ '-' := by
      rintro rfl
      exact absurd hc (by decide)
    have hfresh : ∀ r : Recent, r.next c = .fresh := by
      intro r
      rw [Recent.next, if_neg h1, if_neg h2, if_neg h3, if_neg h6, hc]
      exact if_neg (by simp [h4, h5])
    rw [hfresh, hfresh]

namespace Mode

theorem next_code {r : Recent} {c : Char} (hquote : isQuote c = false)
    (hcomment : ¬(c = '*' ∧ r = .slash)) (hurl : ¬(c = '(' ∧ r = .url)) :
    (code r).next c = some (.code (r.next c)) := by
  rw [next, hquote, if_neg Bool.false_ne_true, if_neg (by simpa using hcomment),
    if_neg (by simpa using hurl)]

/-- After a name, what is no part of it is read as in fresh code, unless it
    opens a url. -/
theorem next_after_name {r : Recent} (hr : r.IsName) {c : Char} (hc : isNameChar c = false)
    (hurl : ¬(c = '(' ∧ r = .url)) : (code r).next c = (code .fresh).next c := by
  have hslash : r ≠ .slash := by
    rintro rfl
    exact absurd hr (by decide)
  cases hquote : isQuote c with
  | true => rw [next, next, hquote, if_pos rfl, if_pos rfl]
  | false =>
      rw [next_code hquote (fun h => hslash h.2) hurl,
        next_code hquote (fun h => absurd h.2 (by decide)) (fun h => absurd h.2 (by decide)),
        Recent.next_after_name hr hc]

theorem next_of_isNameChar (r : Recent) {c : Char} (h : isNameChar c = true) :
    (code r).next c = some (.code (r.next c)) :=
  next_code (isQuote_of_isNameChar h) (fun hc => ne_of_isNameChar h (by decide) hc.1)
    fun hc => ne_of_isNameChar h (by decide) hc.1

/-- After a word, what starts no name is read as in fresh code. -/
theorem next_after_word {c : Char} (h : isNameStart c = false) :
    (code .word).next c = (code .fresh).next c := by
  cases hname : isNameChar c with
  | false => exact next_after_name (by decide) hname fun h => absurd h.2 (by decide)
  | true =>
      rw [next_of_isNameChar _ hname, next_of_isNameChar _ hname]
      rw [isNameChar, h, Bool.false_or, Bool.or_eq_true, beq_iff_eq] at hname
      rcases hname with hdigit | rfl
      · rw [Recent.next_of_isDigit _ hdigit, Recent.next_of_isDigit _ hdigit]
      · rfl

/-- White space leads to fresh code. -/
theorem next_of_isBlank {c : Char} (h : isBlank c = true) (hc : isForeign c = false)
    (r : Recent) : (code r).next c = some (.code .fresh) := by
  have hname : isNameChar c = false := by
    rw [isForeign, h, Bool.true_and, Bool.or_eq_false_iff] at hc
    exact hc.2
  have hne : ∀ d, isBlank d = false → c ≠ d := fun d hd => ne_of_isBlank h hd
  have hnone : ¬(isNameChar c || c = '@' || c = '#') = true := by
    simp [hname, hne '@' (by decide), hne '#' (by decide)]
  rw [next_code (Quoting.isQuote_of_isBlank h) (fun hc => hne '*' (by decide) hc.1)
    (fun hc => hne '(' (by decide) hc.1), Recent.next, if_neg (hne _ (by decide)),
    if_neg (hne _ (by decide)), if_neg (hne _ (by decide)), if_neg (hne _ (by decide)),
    if_neg hnone]

theorem next_of_isSpace {c : Char} (h : isSpace c = true) (r : Recent) :
    (code r).next c = some (.code .fresh) :=
  next_of_isBlank (isBlank_of_isSpace h) (not_foreign_of_isSpace h) r

end Mode

/-! ## Going on from one place as from another -/

/-- What is read of `t` from `l` on is what is read of `t'` from `l'` on. -/
structure Leads (l : Lexing) (t : List Char) (l' : Lexing) (t' : List Char) : Prop where
  sound : (l.after t).isSome = (l'.after t').isSome
  plain : l.mode.isPlain t = true → l'.mode.isPlain t' = true

namespace Leads

theorem refl (l : Lexing) (t : List Char) : Leads l t l t :=
  ⟨rfl, id⟩

theorem trans {l l' l'' : Lexing} {t t' t'' : List Char} (h : Leads l t l' t')
    (h' : Leads l' t' l'' t'') : Leads l t l'' t'' :=
  ⟨h.sound.trans h'.sound, h'.plain ∘ h.plain⟩

/-- At the end of a text it does not matter where a reader stands. -/
theorem nil (l l' : Lexing) : Leads l [] l' [] :=
  ⟨rfl, fun _ => rfl⟩

/-- A step of the reader. -/
theorem step {l l' : Lexing} {c : Char} (h : l.next c = some l') (t : List Char) :
    Leads l (c :: t) l' t := by
  refine ⟨by rw [Lexing.after_cons_of_some h], fun hplain => ?_⟩
  rw [Mode.isPlain, Lexing.mode_of_next h, Bool.and_eq_true] at hplain
  exact hplain.2

/-- A step that leaves the brackets alone. -/
theorem skip {m m' : Mode} {c : Char} (h : m.next c = some m')
    (hc : c ∉ ['(', ')', '[', ']', '{', '}']) (stack : List Bracket) (t : List Char) :
    Leads ⟨m, stack⟩ (c :: t) ⟨m', stack⟩ t := by
  refine step ?_ t
  rw [Lexing.next, h, Option.bind_some, turn_other hc]
  split <;> rfl

/-- Two modes that read the next character alike. -/
theorem alike {m m' : Mode} {stack : List Bracket} {t : List Char}
    (hcounts : m.counts = m'.counts) (hadmits : ∀ c, m.admits c = true → m'.admits c = true)
    (hnext : ∀ c s, t = c :: s → m.next c = m'.next c) :
    Leads ⟨m, stack⟩ t ⟨m', stack⟩ t := by
  cases t with
  | nil => exact nil _ _
  | cons c s =>
      have h := hnext c s rfl
      constructor
      · show ((Lexing.next ⟨m, stack⟩ c).bind fun l => l.after s).isSome = _
        rw [Lexing.next, h, hcounts]
        rfl
      · intro hplain
        rw [Mode.isPlain, Bool.and_eq_true, h] at hplain
        rw [Mode.isPlain, Bool.and_eq_true]
        exact ⟨hadmits c hplain.1, hplain.2⟩

/-- A run of characters that leave the reader where it is. -/
theorem dropWhile {p : Char → Bool} {m : Mode}
    (hp : ∀ c, p c = true → m.next c = some m ∧ c ∉ ['(', ')', '[', ']', '{', '}'])
    (stack : List Bracket) (t : List Char) :
    Leads ⟨m, stack⟩ t ⟨m, stack⟩ (t.dropWhile p) := by
  induction t with
  | nil => exact refl _ _
  | cons c t ih =>
      rw [List.dropWhile_cons]
      split
      · rename_i hc
        exact (skip (hp c hc).1 (hp c hc).2 stack t).trans ih
      · exact refl _ _

/-- A step where brackets do not count. -/
theorem quiet {m m' : Mode} {c : Char} (h : m.next c = some m') (hm : m.counts = false)
    (stack : List Bracket) (t : List Char) : Leads ⟨m, stack⟩ (c :: t) ⟨m', stack⟩ t := by
  refine step ?_ t
  rw [Lexing.next, h, Option.bind_some, hm]
  rfl

/-- Both readers read a character alike and go on alike. -/
theorem cons {m m' : Mode} {stack : List Bracket} {c : Char} {t : List Char} {n n' : Mode}
    (h : m.next c = some n) (h' : m'.next c = some n')
    (hc : c ∉ ['(', ')', '[', ']', '{', '}']) (hadmits : m'.admits c = true)
    (ht : Leads ⟨n, stack⟩ t ⟨n', stack⟩ t) : Leads ⟨m, stack⟩ (c :: t) ⟨m', stack⟩ (c :: t) := by
  constructor
  · rw [(skip h hc stack t).sound, (skip h' hc stack t).sound, ht.sound]
  · intro hplain
    have hrest := ht.plain ((skip h hc stack t).plain hplain)
    show (m'.admits c && _) = true
    rw [hadmits, h']
    exact hrest

/-- A text that starts like one that is unsound. -/
theorem stops {l l' : Lexing} {t t' : List Char} (h : Leads l t l' t')
    (hnone : l'.after t' = none) : l.after t = none := by
  have hsound := h.sound
  rw [hnone] at hsound
  exact Option.not_isSome_iff_eq_none.mp (by rw [hsound]; exact Bool.false_ne_true)

end Leads

/-! ## What a token does -/

/-- The open brackets after a token of a kind; none when the token is unsound
    there. -/
def TokenKind.act : TokenKind → List Bracket → Option (List Bracket)
  | .opens b, stack => some (b :: stack)
  | .closes b, stack => close b stack
  | .malformed, _ => none
  | .other, stack => some stack

/-- Over a token of a kind and a length the reader comes to fresh code. -/
structure Acts (scan : TokenKind × Nat) (t : List Char) : Prop where
  leads : ∀ {stack stack' : List Bracket}, scan.1.act stack = some stack' →
    Leads ⟨.code .fresh, stack⟩ t ⟨.code .fresh, stack'⟩ (t.drop scan.2)
  stops : ∀ {stack : List Bracket}, scan.1.act stack = none →
    (Lexing.after ⟨.code .fresh, stack⟩ t) = none

theorem Acts.other {n : Nat} {t : List Char}
    (h : ∀ stack, Leads ⟨.code .fresh, stack⟩ t ⟨.code .fresh, stack⟩ (t.drop n)) :
    Acts (.other, n) t := by
  constructor
  · intro stack stack' hact
    obtain rfl : stack = stack' := Option.some.inj hact
    exact h stack
  · intro stack hact
    cases hact

/-- A single character without meaning. -/
theorem Acts.single {c : Char} {cs : List Char}
    (h : (Mode.code .fresh).next c = some (.code .fresh))
    (hc : c ∉ ['(', ')', '[', ']', '{', '}']) : Acts (.other, 1) (c :: cs) :=
  .other fun stack => Leads.skip h hc stack cs

/-- A bracket. -/
theorem Acts.bracket {c : Char} {cs : List Char} {kind : TokenKind}
    (h : (Mode.code .fresh).next c = some (.code .fresh))
    (hturn : ∀ stack, turn stack c = kind.act stack) : Acts (kind, 1) (c :: cs) := by
  have hnext : ∀ stack, Lexing.next ⟨.code .fresh, stack⟩ c =
      (kind.act stack).map fun stack => ⟨.code .fresh, stack⟩ := by
    intro stack
    rw [Lexing.next, h, ← hturn]
    rfl
  constructor
  · intro stack stack' hact
    refine Leads.step ?_ cs
    rw [hnext, hact]
    rfl
  · intro stack hact
    show (Lexing.next ⟨.code .fresh, stack⟩ c).bind _ = none
    rw [hnext, hact]
    rfl

/-! ## Names and functions -/

/-- Reading over a name. -/
theorem Leads.name (r : Recent) (stack : List Bracket) (t : List Char) :
    Leads ⟨.code r, stack⟩ t ⟨.code (r.after (t.takeWhile isNameChar)), stack⟩
      (t.dropWhile isNameChar) := by
  induction t generalizing r with
  | nil => exact refl _ _
  | cons c t ih =>
      rw [List.dropWhile_cons, List.takeWhile_cons]
      split
      · rename_i hc
        exact (skip (Mode.next_of_isNameChar r hc) (not_bracket_of_isNameChar hc) stack t).trans
          (ih (r.next c))
      · exact refl _ _

/-- Plain code goes on plainly. -/
theorem plain_of_plain_cons {r : Recent} {c : Char} {t : List Char}
    (h : (Mode.code r).isPlain (c :: t) = true) : c ≠ '\\' := by
  rintro rfl
  rw [Mode.isPlain, Bool.and_eq_true] at h
  exact absurd h.1 (by simp [Mode.admits, Mode.isForeign])

theorem plain_after_name {r : Recent} {c : Char} {t : List Char}
    (h : (Mode.code r).isPlain (c :: t) = true) (hc : isNameChar c = true) :
    (Mode.code (r.next c)).isPlain t = true := by
  rw [Mode.isPlain, Mode.next_of_isNameChar r hc, Bool.and_eq_true] at h
  exact h.2

/-- **Names of plain texts** have no escapes. -/
theorem name_of_plain {r : Recent} {t : List Char} (h : (Mode.code r).isPlain t = true) :
    Token.name t = ((t.takeWhile isNameChar).map fun c => if c == '\x00' then '\uFFFD' else c,
      (t.takeWhile isNameChar).length) := by
  induction t generalizing r with
  | nil => rw [Token.name]; rfl
  | cons c t ih =>
      rw [Token.name, List.takeWhile_cons]
      by_cases hc : isNameChar c = true
      · rw [if_pos hc, if_pos hc, ih (plain_after_name h hc)]
        rfl
      · have hb : (c == '\\') = false := beq_eq_false_iff_ne.mpr (plain_of_plain_cons h)
        rw [if_neg hc, if_neg hc, hb]
        rfl

/-- A name is `url` whatever stands in it for the null character. -/
theorem toLower_unzero (t : List Char) :
    (t.map fun c => if c == '\x00' then '\uFFFD' else c).map Char.toLower = ['u', 'r', 'l'] ↔
      t.map Char.toLower = ['u', 'r', 'l'] := by
  have hchar : ∀ c d : Char, d ≠ '\uFFFD' → d ≠ '\x00' →
      ((if c == '\x00' then '\uFFFD' else c).toLower = d ↔ c.toLower = d) := by
    intro c d h1 h2
    by_cases hc : c = '\x00'
    · subst hc
      exact iff_of_false (fun h => h1 h.symm) (fun h => h2 h.symm)
    · rw [if_neg (by simpa using hc)]
  rw [List.map_map]
  simp only [List.map_eq_cons_iff, List.map_eq_nil_iff, Function.comp_apply,
    hchar _ 'u' (by decide) (by decide), hchar _ 'r' (by decide) (by decide),
    hchar _ 'l' (by decide) (by decide)]

theorem drop_takeWhile {α : Type} (p : α → Bool) (t : List α) :
    t.drop (t.takeWhile p).length = t.dropWhile p := by
  have hsplit : t.takeWhile p ++ t.dropWhile p = t := List.takeWhile_append_dropWhile
  conv => lhs; arg 2; rw [← hsplit]
  rw [List.drop_left]

end PageLoom.Css
