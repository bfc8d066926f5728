import PageLoom.Css.Minify
import PageLoom.Proofs.Css.Runs

/-!
# Minified texts — spaces that no token needs

    Minification holds white space back until it knows what comes next, and
    drops it beside punctuation.  So two readers run side by side, one over
    the text and one over what is written of it.  They stand at the same
    place, or a space apart while one is held back (`Agrees`), and each
    character keeps them so (`Agrees.next`): what stands after a space that
    is dropped reads the same without it, since nothing or punctuation
    stands before the space (`next_unspaced`) or punctuation after it
    (`next_unspaced_tight`).
-/

namespace PageLoom.Css

open Text Token

/-! ## Spaces -/

/-- Where white space leads. -/
def Mode.spaced : Mode → Mode
  | .code _ => .code .fresh
  | .url | .urlSlash | .urlEnd => .urlEnd
  | m => m

/-- The reader after white space. -/
def Lexing.spaced (l : Lexing) : Lexing :=
  ⟨l.mode.spaced, l.stack⟩

@[simp] theorem Lexing.spaced_spaced (l : Lexing) : l.spaced.spaced = l.spaced := by
  obtain ⟨mode, stack⟩ := l
  cases mode <;> rfl

/-- Minification and tokens agree on white space. -/
theorem isSpacing_iff {c : Char} : isSpacing c = true ↔ isSpace c = true := by
  simp only [isSpacing, isSpace, isNewline, Bool.or_eq_true, beq_iff_eq]
  grind

/-- **White space outside strings** is always read, and leaves the brackets as
    they are. -/
theorem Lexing.next_of_isSpacing {l : Lexing} (hs : l.Settled) (hcode : l.mode.quoting = .code)
    {c : Char} (hc : isSpacing c = true) : l.next c = some l.spaced := by
  have hspace := isSpacing_iff.mp hc
  refine (Lexing.next_iff hs.outside).mpr ⟨?_, ?_⟩
  · show l.mode.next c = some l.mode.spaced
    rcases Mode.code_or_url hs.outside hcode with ⟨r, heq⟩ | hurl
    · rw [heq]
      exact Mode.next_of_isSpace hspace r
    · have hclose : c ≠ ')' := by
        rintro rfl
        cases hc
      generalize l.mode = m at hurl
      cases m with
      | urlStart => exact if_pos hspace
      | urlEnd => exact (if_neg hclose).trans (if_pos hspace)
      | url => exact (if_neg hclose).trans (if_pos hspace)
      | urlSlash => exact (if_neg hclose).trans (if_pos hspace)
      | _ => cases hurl
  · rw [if_pos hcode]
    exact turn_other (not_bracket_of_isSpace hspace) _

/-- A character that reads the same in two modes does so with any brackets
    open. -/
theorem Lexing.next_congr {m m' : Mode} (stack : List Bracket) {c : Char}
    (h : m.next c = m'.next c) (hcounts : m.counts = m'.counts) :
    Lexing.next ⟨m, stack⟩ c = Lexing.next ⟨m', stack⟩ c := by
  rw [Lexing.next, Lexing.next, h, hcounts]

/-- Punctuation leads to fresh code. -/
theorem Mode.next_of_isPunctuation {c : Char} (h : isPunctuation c = true) (r : Recent) :
    (code r).next c = some (.code .fresh) := by
  simp only [isPunctuation, Bool.or_eq_true, beq_iff_eq] at h
  rcases h with ((((((rfl | rfl) | rfl) | rfl) | rfl) | rfl) | rfl) | rfl <;> rfl

theorem isPunctuation_apart {c : Char} (h : isPunctuation c = true) :
    isQuote c = false ∧ isSpacing c = false := by
  simp only [isPunctuation, Bool.or_eq_true, beq_iff_eq] at h
  rcases h with ((((((rfl | rfl) | rfl) | rfl) | rfl) | rfl) | rfl) | rfl <;> decide

section Unspaced

variable {l l' : Lexing} {c : Char} (hadmits : l.spaced.mode.admits c = true)
  (hnext : l.spaced.next c = some l')

include hadmits hnext

/-- **Where a space means nothing**: in fresh code and in bare urls, whatever
    follows a space reads the same without it. -/
theorem next_unspaced (hl : l.mode = .code .fresh ∨ l.mode.isUrl = true)
    (hc : isSpacing c = false) : l.mode.admits c = true ∧ l.next c = some l' := by
  obtain ⟨mode, stack⟩ := l
  -- after the white space at the end of a bare url only its end can follow
  have hend : Mode.urlEnd.next c = some l'.mode → c = ')' := by
    intro h
    rw [Mode.next] at h
    split at h
    · assumption
    split at h
    · rename_i hspace
      rw [isSpacing_iff.mpr hspace] at hc
      cases hc
    · cases h
  rcases hl with rfl | hurl
  · exact ⟨hadmits, hnext⟩
  · cases mode with
    | urlStart => exact ⟨hadmits, hnext⟩
    | urlEnd => exact ⟨hadmits, hnext⟩
    | url =>
        obtain rfl := hend (Lexing.mode_of_next hnext)
        exact ⟨rfl, hnext⟩
    | urlSlash =>
        obtain rfl := hend (Lexing.mode_of_next hnext)
        exact ⟨rfl, hnext⟩
    | _ => cases hurl

/-- **Punctuation** reads the same without a space before it. -/
theorem next_unspaced_tight (hs : l.Settled) (hcode : l.mode.quoting = .code)
    (hc : isPunctuation c = true) : l.mode.admits c = true ∧ l.next c = some l' := by
  obtain ⟨mode, stack⟩ := l
  rcases Mode.code_or_url hs.outside hcode with ⟨r, heq⟩ | hurl
  · obtain rfl : mode = .code r := heq
    refine ⟨hadmits, ?_⟩
    rw [← hnext]
    exact Lexing.next_congr stack
      ((Mode.next_of_isPunctuation hc r).trans (Mode.next_of_isPunctuation hc .fresh).symm) rfl
  · exact next_unspaced hadmits hnext (Or.inr hurl) (isPunctuation_apart hc).2

end Unspaced

/-- After punctuation a space means nothing. -/
theorem anew_of_isPunctuation {m m' : Mode} {c : Char} (hm : m ≠ .comment ∧ m ≠ .star)
    (hcode : m.quoting = .code) (hc : isPunctuation c = true) (h : m.next c = some m') :
    m' = .code .fresh ∨ m'.isUrl = true := by
  rcases Mode.code_or_url hm hcode with ⟨r, rfl⟩ | hurl
  · rw [Mode.next_of_isPunctuation hc] at h
    exact Or.inl (Option.some.inj h).symm
  · rcases Mode.nextUrl_cases hurl h with ⟨-, hq, -⟩ | ⟨-, ⟨-, rfl⟩ | ⟨-, hm'⟩⟩
    · rw [(isPunctuation_apart hc).1] at hq
      cases hq
    · exact Or.inl rfl
    · exact Or.inr hm'

/-- **A semicolon before a closing brace** means nothing: before it the reader
    stood in code as well. -/
theorem next_without_semicolon {l l' l'' : Lexing} (hs : l.Settled) (hsemi : l.next ';' = some l')
    (hcode : l'.mode.quoting = .code) (hadmits : l'.mode.admits '}' = true)
    (hnext : l'.next '}' = some l'') : l.mode.admits '}' = true ∧ l.next '}' = some l'' := by
  obtain ⟨hmode, hstack⟩ := (Lexing.next_iff hs.outside).mp hsemi
  have hquoting : l.mode.quoting = .code := by
    have hsettle := Quoting.next_of_plain hs.proper (by decide : isQuote ';' = false) (by decide)
    rw [← quoting_next hs.proper hs.outside hmode, hcode] at hsettle
    exact Quoting.settle_eq_code_iff.mp hsettle.symm
  rw [if_pos hquoting, turn_other (by decide), Option.some.injEq] at hstack
  obtain ⟨mode, stack⟩ := l
  obtain ⟨mode', stack'⟩ := l'
  obtain rfl : stack = stack' := hstack
  rcases Mode.code_or_url hs.outside hquoting with ⟨r, heq⟩ | hurl
  · obtain rfl : mode = .code r := heq
    have hfresh : some (Mode.code .fresh) = some mode' := hmode
    obtain rfl := Option.some.inj hfresh
    exact ⟨rfl, hnext⟩
  · -- a bare url would go on, and does not hold the brace
    rcases Mode.nextUrl_cases hurl hmode with ⟨-, hq, -⟩ | ⟨-, ⟨heq, -⟩ | ⟨-, hurl'⟩⟩
    · cases hq
    · cases heq
    · rw [Mode.not_url_of_brace (Or.inr rfl) hadmits] at hurl'
      cases hurl'

/-! ## Two readers -/

namespace Minifying

@[simp] theorem flush_quoting (m : Minifying) : m.flush.quoting = m.quoting := by
  rw [flush]
  split <;> rfl

@[simp] theorem flush_pendingSpace (m : Minifying) : m.flush.pendingSpace = false := by
  rw [flush]
  split <;> rfl

end Minifying

/-- What a character does to minification, strings included. -/
def Minifying.next (m : Minifying) (c : Char) (cs : List Char) : Minifying :=
  if m.quoting = .code then minifyCode m c cs
  else { m with written := c :: m.written, quoting := m.quoting.next c }

theorem minifyFrom_cons (m : Minifying) (c : Char) (cs : List Char) :
    minifyFrom m (c :: cs) = minifyFrom (m.next c cs) cs := by
  rw [minifyFrom, Minifying.next]
  split <;> rfl

/-- **The two readers**: `a` over the text read so far, `b` over what is written
    of it. -/
structure Agrees (m : Minifying) (a b : Lexing) : Prop where
  reads : Reads {} m.written.reverse b
  settled : a.Settled
  quoting : m.quoting = a.mode.quoting
  held : m.pendingSpace = true → m.quoting = .code ∧ a = b.spaced
  same : m.pendingSpace = false → a = b
  anew : m.afterPunctuation = true ∨ m.written = [] →
    b.mode = .code .fresh ∨ b.mode.isUrl = true

/-- One more character of a run. -/
theorem Reads.concat {l l' l'' : Lexing} {t : List Char} {c : Char} (h : Reads l t l')
    (hadmits : l'.mode.admits c = true) (hnext : l'.next c = some l'')
    (hcomment : l''.mode ≠ .comment) : Reads l (t ++ [c]) l'' :=
  h.append (.cons hadmits hnext hcomment (.nil l''))

theorem agrees_start : Agrees .start {} {} where
  reads := .nil _
  settled := settled_code _ _
  quoting := rfl
  held := fun h => by cases h
  same := fun _ => rfl
  anew := fun _ => Or.inl rfl

namespace Agrees

variable {m m' : Minifying} {a b z : Lexing} {c : Char}

/-- The readers meet where no space is held back. -/
theorem meet (hreads : Reads {} m.written.reverse z) (hs : z.Settled)
    (hquoting : m.quoting = z.mode.quoting) (hpending : m.pendingSpace = false)
    (hanew : m.afterPunctuation = true ∨ m.written = [] →
      z.mode = .code .fresh ∨ z.mode.isUrl = true) : Agrees m z z where
  reads := hreads
  settled := hs
  quoting := hquoting
  held := fun h => by
    rw [hpending] at h
    cases h
  same := fun _ => rfl
  anew := hanew

section Step

variable (h : Agrees m a b) (hadmits : a.mode.admits c = true) (hnext : a.next c = some z)
  (hcomment : z.mode ≠ .comment)

include h

/-- The written text ends outside strings where the text read does. -/
theorem quoting_written (hcode : m.quoting = .code) : b.mode.quoting = .code := by
  cases hpending : m.pendingSpace with
  | true =>
      obtain ⟨-, ha⟩ := h.held hpending
      obtain ⟨mode, stack⟩ := b
      have hspaced : (Mode.spaced mode).quoting = .code := by
        rw [← hcode, h.quoting, ha]
        rfl
      cases mode with
      | string quote stretch => exact hspaced
      | _ => rfl
  | false => rw [← h.same hpending, ← h.quoting, hcode]

include hadmits hnext hcomment

/-- **Writing a character** after the space held back, unless that space means
    nothing. -/
theorem put (hcode : m.quoting = .code) (hc : isSpacing c = false) :
    Reads {} (m.put c).written.reverse z := by
  have hwritten : (m.put c).written = c :: m.flush.written := rfl
  rw [hwritten, List.reverse_cons]
  cases hpending : m.pendingSpace with
  | false =>
      have hflush : m.flush.written = m.written := by
        rw [Minifying.flush, hpending]
        rfl
      rw [hflush]
      obtain rfl := h.same hpending
      exact h.reads.concat hadmits hnext hcomment
  | true =>
      obtain ⟨-, rfl⟩ := h.held hpending
      by_cases hmeans : m.afterPunctuation = true ∨ m.written = []
      · have hflush : m.flush.written = m.written := by
          rw [Minifying.flush, if_neg]
          rcases hmeans with hafter | hnil
          · simp [hafter]
          · simp [hnil]
        rw [hflush]
        obtain ⟨hadmits', hnext'⟩ := next_unspaced hadmits hnext (h.anew hmeans) hc
        exact h.reads.concat hadmits' hnext' hcomment
      · rw [not_or, Bool.not_eq_true] at hmeans
        have hflush : m.flush.written = ' ' :: m.written := by
          rw [Minifying.flush, if_pos]
          simp [hpending, hmeans.1, hmeans.2]
        rw [hflush, List.reverse_cons]
        have hb := h.reads.settled (settled_code _ _)
        have hspace : b.next ' ' = some b.spaced :=
          Lexing.next_of_isSpacing hb (h.quoting_written hcode) (by decide)
        refine (h.reads.concat ?_ hspace h.settled.outside.1).concat hadmits hnext hcomment
        obtain ⟨mode, stack⟩ := b
        cases mode <;> rfl

/-- **Writing punctuation** without the space held back. -/
theorem putTight (hcode : m.quoting = .code) (hc : isPunctuation c = true) :
    Reads {} (m.putTight c).written.reverse z := by
  have hb := h.reads.settled (settled_code _ _)
  have hstep : b.mode.admits c = true ∧ b.next c = some z := by
    cases hpending : m.pendingSpace with
    | false =>
        obtain rfl := h.same hpending
        exact ⟨hadmits, hnext⟩
    | true =>
        obtain ⟨-, rfl⟩ := h.held hpending
        exact next_unspaced_tight hadmits hnext hb (h.quoting_written hcode) hc
  obtain ⟨hadmits', hnext'⟩ := hstep
  by_cases hdrop : c = '}' ∧ ∃ rest, m.written = ';' :: rest
  · obtain ⟨rfl, rest, hwritten⟩ := hdrop
    have htight : (m.putTight '}').written = '}' :: rest := by
      rw [Minifying.putTight, hwritten]
      rfl
    have hreads := h.reads
    rw [hwritten, List.reverse_cons] at hreads
    obtain ⟨k, hk, hsemi⟩ := hreads.exists_of_append
    rw [htight, List.reverse_cons]
    cases hsemi with
    | cons _ hsemi _ hrest =>
        cases hrest with
        | nil _ =>
            obtain ⟨hadmits'', hnext''⟩ := next_without_semicolon (hk.settled (settled_code _ _))
              hsemi (h.quoting_written hcode) hadmits' hnext'
            exact hk.concat hadmits'' hnext'' hcomment
  · have htight : (m.putTight c).written = c :: m.written := by
      rw [Minifying.putTight]
      dsimp only
      split
      · rename_i rest hwritten
        rw [if_neg fun hc => hdrop ⟨hc, rest, hwritten⟩]
      · rfl
    rw [htight, List.reverse_cons]
    exact h.reads.concat hadmits' hnext' hcomment

/-- **Each character keeps the two readers together.** -/
theorem next (cs : List Char) : ∃ b', Agrees (m.next c cs) z b' := by
  have hz := h.settled.next hadmits hnext hcomment
  have hmode := Lexing.mode_of_next hnext
  have hquoting : z.mode.quoting = m.quoting.next c := by
    rw [h.quoting]
    exact quoting_next h.settled.proper h.settled.outside hmode
  by_cases hcode : m.quoting = .code
  · have hput : isSpacing c = false → ∀ m' : Minifying, m'.written = (m.put c).written →
        m'.quoting = m.quoting.next c → m'.pendingSpace = false → m'.afterPunctuation = false →
        ∃ b', Agrees m' z b' := by
      intro hc m' hwritten hq hpending hafter
      refine ⟨z, meet ?_ hz (hq.trans hquoting.symm) hpending ?_⟩
      · rw [hwritten]
        exact h.put hadmits hnext hcomment hcode hc
      · rw [hafter, hwritten]
        rintro (hfalse | hnil)
        · cases hfalse
        · cases hnil
    rw [Minifying.next, if_pos hcode, minifyCode]
    split
    · rename_i hc
      refine hput ?_ _ rfl ?_ (Minifying.flush_pendingSpace m) rfl
      · simp only [isQuote, Bool.or_eq_true, beq_iff_eq] at hc
        rcases hc with rfl | rfl <;> decide
      · rw [hcode]
        exact (if_pos hc).symm
    rename_i hc
    have hnext' : m.quoting.next c = .code := by
      rw [hcode]
      exact Quoting.next_code_of_not_quote (Bool.eq_false_iff.mpr hc)
    split
    · -- the reader of the text goes on over the space, the other one waits
      rename_i hspacing
      have hcode' : a.mode.quoting = .code := h.quoting.symm.trans hcode
      rw [Lexing.next_of_isSpacing h.settled hcode' hspacing, Option.some.injEq] at hnext
      have ha : z = b.spaced := by
        cases hpending : m.pendingSpace with
        | true => rw [← hnext, (h.held hpending).2, Lexing.spaced_spaced]
        | false => rw [← hnext, h.same hpending]
      refine ⟨b, h.reads, hz, (hcode.trans hnext'.symm).trans hquoting.symm, fun _ => ⟨hcode, ha⟩,
        fun hfalse => ?_, h.anew⟩
      cases hfalse
    rename_i hspacing
    rw [Bool.not_eq_true] at hspacing
    have hkept : ∀ n, ∃ b', Agrees { m.put c with parens := n } z b' := fun n =>
      hput hspacing _ rfl (((Minifying.flush_quoting m).trans hcode).trans hnext'.symm)
        (Minifying.flush_pendingSpace m) rfl
    split
    · rename_i htight
      split
      · exact hkept _
      · have hcode' : a.mode.quoting = .code := h.quoting.symm.trans hcode
        refine ⟨z, meet (h.putTight hadmits hnext hcomment hcode htight) hz
          ((hcode.trans hnext'.symm).trans hquoting.symm) rfl fun _ => ?_⟩
        exact anew_of_isPunctuation h.settled.outside hcode' htight hmode
    split
    · exact hkept _
    split
    · exact hkept _
    · exact hkept _
  · -- in a string no space is held back, and everything is written
    have hpending : m.pendingSpace = false := by
      cases hpending : m.pendingSpace with
      | false => rfl
      | true => exact absurd (h.held hpending).1 hcode
    obtain rfl := h.same hpending
    rw [Minifying.next, if_neg hcode]
    refine ⟨z, meet ?_ hz hquoting.symm hpending ?_⟩
    · show Reads {} (c :: m.written).reverse z
      rw [List.reverse_cons]
      exact h.reads.concat hadmits hnext hcomment
    · rintro (hafter | hnil)
      · have hcode' : a.mode.quoting = .code := by
          rcases h.anew (Or.inl hafter) with hfresh | hurl
          · rw [hfresh]
            rfl
          · exact Mode.quoting_of_isUrl hurl
        exact absurd (h.quoting.trans hcode') hcode
      · cases hnil

end Step

end Agrees

/-! ## Minified texts -/

/-- What is written of the rest of a text. -/
theorem Agrees.exists_reads {m : Minifying} {a b l : Lexing} {t : List Char} (h : Agrees m a b)
    (ht : Reads a t l) : ∃ l', Reads {} (minifyFrom m t).reverse l' := by
  induction t generalizing m a b with
  | nil => exact ⟨b, h.reads⟩
  | cons c t ih =>
      rw [minifyFrom_cons]
      cases ht with
      | cons hadmits hnext hcomment ht =>
          obtain ⟨b', h'⟩ := h.next hadmits hnext hcomment t
          exact ih h' ht

/-- **Minification keeps texts sound**: what a plain run reads to its end is
    sound when it is minified. -/
theorem validate_minify_of_reads {css : String} {l : Lexing}
    (h : Reads {} (stripComments css.toList) l) : validate (minify css) = .ok () := by
  obtain ⟨l', h'⟩ := agrees_start.exists_reads h
  obtain ⟨l'', h'', -⟩ := h'.trim
  exact validate_of_reads h''

end PageLoom.Css
