import PageLoom.Css.Quoting
import PageLoom.Proofs.Css.Scan
import PageLoom.Proofs.Css.TokenReading

/-!
# Comments — a plain text without them

    A comment is dropped without a replacement, so the tokens on its two
    sides may join: `u/**/rl(` becomes a url.  Where no two characters stand
    at a comment that could go on as one token (`apart`), a plain text is
    read without its comments as it is with them (`strips`).  The one
    difference is what the last characters amount to, since a comment leaves
    fresh code behind and its absence does not.

    The passes see only strings, and they follow the reader into strings and
    out of them (`quoting_next`).
-/

namespace PageLoom.Css

open Text Token

/-! ## Comments that stand apart -/

/-- Characters that a token may go on after. -/
def mayLead (c : Char) : Bool :=
  isNameChar c || ['@', '#', '/', '<', '!'].contains c

/-- Characters that a token may go on with. -/
def mayFollow (c : Char) : Bool :=
  isNameChar c || ['!', '(', '*'].contains c

/-- Whether no comment stands between characters that would be read as one
    token without it.  `last` is the last character outside comments, and
    `gap` tells whether a comment has been read since. -/
def apart : Stripping → Option Char → Bool → List Char → Bool
  | _, _, _, [] => true
  | .text .code, last, _, '/' :: '*' :: t => apart .comment last true t
  | .text q, last, gap, c :: t =>
      !(gap && mayFollow c && last.any mayLead) && apart (.text (q.next c)) (some c) false t
  | .comment, last, _, '*' :: '/' :: t => apart (.text .code) last true t
  | .comment, last, _, _ :: t => apart .comment last true t

/-! ## Strings, as the passes see them -/

/-- Inside a string that a quote closes, no other character counts. -/
private theorem inside_next {quote c : Char} (hc : c ≠ quote) (hb : c ≠ '\\') :
    (Quoting.inside quote).next c = .inside quote := by
  show (if c = '\\' then Quoting.escaped quote
    else if c = quote then .code else .inside quote) = .inside quote
  rw [if_neg hb, if_neg hc]

private theorem quoting_inString {quote c : Char} {m : Mode} (hquote : isQuote quote = true)
    (h : Mode.inString quote c = some m) : m.quoting = (Quoting.inside quote).next c := by
  rw [Mode.inString] at h
  have hback : quote ≠ '\\' := by
    rintro rfl
    cases hquote
  by_cases hclose : c = quote
  · subst hclose
    rw [if_pos rfl] at h
    obtain rfl := Option.some.inj h
    show _ = if c = '\\' then Quoting.escaped c else if c = c then .code else .inside c
    rw [if_neg hback, if_pos rfl]
    rfl
  rw [if_neg hclose] at h
  split at h
  · cases h
  split at h
  · rename_i hescape
    obtain rfl := Option.some.inj h
    subst hescape
    rfl
  · rename_i hescape
    obtain rfl := Option.some.inj h
    rw [inside_next hclose hescape]
    rfl

/-- A character that neither closes nor escapes leaves the string as it is. -/
private theorem inside_next_of {quote c : Char} (hquote : isQuote quote = true)
    (hc : isQuote c = false) (hb : c ≠ '\\') : (Quoting.inside quote).next c = .inside quote := by
  refine inside_next ?_ hb
  rintro rfl
  rw [hc] at hquote
  cases hquote

private theorem quoting_lineEnd (quote c : Char) :
    (Mode.lineEnd quote c).quoting = .inside quote := by
  rw [Mode.lineEnd]
  split <;> rfl

private theorem quoting_nextString {quote c : Char} {stretch : Stretch} {m : Mode}
    (hquote : isQuote quote = true) (h : Mode.nextString quote stretch c = some m) :
    m.quoting = (Mode.string quote stretch).quoting.next c := by
  have hline : isNewline c = true → isQuote c = false ∧ c ≠ '\\' := by
    intro hc
    simp only [isNewline, Bool.or_eq_true, beq_iff_eq] at hc
    rcases hc with (rfl | rfl) | rfl <;> decide
  cases stretch with
  | plain => exact quoting_inString hquote h
  | escaped =>
      rw [Mode.nextString] at h
      split at h
      · obtain rfl := Option.some.inj h
        exact quoting_lineEnd quote c
      · split at h <;>
          · obtain rfl := Option.some.inj h
            rfl
  | hex n =>
      rw [Mode.nextString] at h
      split at h
      · rename_i hhex
        obtain rfl := Option.some.inj h
        have hc : isQuote c = false ∧ c ≠ '\\' := by
          have hhex := (Bool.and_eq_true_iff.mp hhex).1
          constructor
          · cases hq : isQuote c with
            | false => rfl
            | true =>
                simp only [isQuote, Bool.or_eq_true, beq_iff_eq] at hq
                rcases hq with rfl | rfl <;> exact absurd hhex (by decide)
          · rintro rfl
            exact absurd hhex (by decide)
        exact (inside_next_of hquote hc.1 hc.2).symm
      split at h
      · rename_i hblank
        obtain rfl := Option.some.inj h
        have hc : isQuote c = false ∧ c ≠ '\\' := by
          simp only [Bool.or_eq_true, decide_eq_true_eq] at hblank
          rcases hblank with rfl | rfl <;> decide
        exact (inside_next_of hquote hc.1 hc.2).symm
      split at h
      · rename_i hc
        obtain rfl := Option.some.inj h
        rw [quoting_lineEnd]
        exact (inside_next_of hquote (hline hc).1 (hline hc).2).symm
      · exact quoting_inString hquote h
  | carriage =>
      rw [Mode.nextString] at h
      split at h
      · rename_i hc
        subst hc
        obtain rfl := Option.some.inj h
        exact (inside_next_of hquote (by decide) (by decide)).symm
      · exact quoting_inString hquote h

theorem Mode.quoting_of_isUrl {m : Mode} (h : m.isUrl = true) : m.quoting = .code := by
  cases m with
  | urlStart => rfl
  | url => rfl
  | urlSlash => rfl
  | urlEnd => rfl
  | _ => cases h

/-- **The passes follow the reader into strings and out of them.** -/
theorem quoting_next {m m' : Mode} {c : Char} (hproper : m.quoting.Proper)
    (hm : m ≠ .comment ∧ m ≠ .star) (h : m.next c = some m') :
    m'.quoting = m.quoting.next c := by
  have hstring : isQuote c = true → (Mode.string c .plain).quoting = Quoting.code.next c :=
    fun hc => (if_pos hc).symm
  have hcode : ∀ {m' : Mode}, m'.quoting = .code → isQuote c = false →
      m'.quoting = Quoting.code.next c := by
    intro m' hm' hc
    rw [hm', Quoting.next_code_of_not_quote hc]
  have hurl : m.isUrl = true → m'.quoting = m.quoting.next c := by
    intro hisUrl
    rw [Mode.quoting_of_isUrl hisUrl]
    rcases Mode.nextUrl_cases hisUrl h with ⟨-, hc, rfl⟩ | ⟨hc, ⟨-, rfl⟩ | ⟨-, hm'⟩⟩
    · exact hstring hc
    · exact hcode rfl hc
    · exact hcode (Mode.quoting_of_isUrl hm') hc
  cases m with
  | comment => exact absurd rfl hm.1
  | star => exact absurd rfl hm.2
  | string quote stretch =>
      refine quoting_nextString ?_ h
      cases stretch <;> exact hproper
  | code r =>
      rcases Mode.nextCode_cases h with ⟨hc, rfl⟩ | ⟨hc, ⟨-, -, rfl⟩ | ⟨-, -, rfl⟩ | rfl⟩
      · exact hstring hc
      · exact hcode rfl hc
      · exact hcode rfl hc
      · exact hcode rfl hc
  | _ => exact hurl rfl

/-! ## Removing comments -/

/-- Outside strings and comments stand code and bare urls. -/
theorem Mode.code_or_url {m : Mode} (h : m ≠ .comment ∧ m ≠ .star) (hcode : m.quoting = .code) :
    (∃ r, m = .code r) ∨ m.isUrl = true := by
  cases m with
  | code r => exact Or.inl ⟨r, rfl⟩
  | comment => exact absurd rfl h.1
  | star => exact absurd rfl h.2
  | string quote stretch => cases stretch <;> cases hcode
  | _ => exact Or.inr rfl

/-- A comment opens in code only: in a bare url it would not be plain. -/
theorem Mode.code_of_opening {m m' : Mode} (h : m ≠ .comment ∧ m ≠ .star)
    (hcode : m.quoting = .code) (hnext : m.next '/' = some m') (hadmits : m'.admits '*' = true) : ∃ r, m = .code r := by
  rcases Mode.code_or_url h hcode with hr | hurl
  · exact hr
  · have hslash : m.next '/' = some .urlSlash ∨ m.next '/' = none := by
      cases m with
      | urlStart => exact Or.inl rfl
      | url => exact Or.inl rfl
      | urlSlash => exact Or.inl rfl
      | urlEnd => exact Or.inr rfl
      | _ => cases hurl
    rcases hslash with hslash | hnone
    · rw [hslash] at hnext
      rw [← Option.some.inj hnext] at hadmits
      exact absurd hadmits (by decide)
    · rw [hnone] at hnext
      cases hnext

/-- What a mode takes from the last character. -/
def Mode.Follows (m : Mode) (last : Option Char) : Prop :=
  ∀ r, m = .code r → r ≠ .fresh → last.any mayLead = true

theorem mayLead_of_next {r : Recent} {c : Char} (h : r.next c ≠ .fresh) : mayLead c = true := by
  cases hlead : mayLead c with
  | true => rfl
  | false =>
      refine absurd ?_ h
      simp only [mayLead, Bool.or_eq_false_iff, List.contains_eq_mem, List.mem_cons,
        List.not_mem_nil, or_false, decide_eq_false_iff_not, not_or] at hlead
      obtain ⟨hname, h1, h2, h3, h4, h5⟩ := hlead
      have h6 : c ≠ '-' := by
        rintro rfl
        exact absurd hname (by decide)
      rw [Recent.next, if_neg h3, if_neg h4, if_neg h5, if_neg h6, hname]
      exact if_neg (by simp [h1, h2])

/-- Where code comes from, and where comments do. -/
theorem recent_of_next {m : Mode} {c : Char} {r : Recent} (h : m.next c = some (.code r)) :
    r = .fresh ∨ ∃ r', m = .code r' ∧ r = r'.next c := by
  rcases Mode.next_cases h with ⟨-, heq | heq | heq⟩ | ⟨_, _, -, heq | ⟨_, heq⟩⟩ |
    ⟨-, heq | heq | heq⟩ | ⟨r', hm, heq | ⟨-, -, heq⟩ | ⟨-, -, heq⟩ | heq⟩
  -- comments, strings and bare urls leave fresh code behind
  case inl.inl => exact Or.inl (Mode.code.inj heq)
  case inr.inl.inl => exact Or.inl (Mode.code.inj heq)
  case inr.inr.inl.inr.inl => exact Or.inl (Mode.code.inj heq)
  case inr.inr.inr.inr.inr.inr => exact Or.inr ⟨r', hm, Mode.code.inj heq⟩
  all_goals cases heq

theorem follows_next {m m' : Mode} {c : Char} (h : m.next c = some m') :
    m'.Follows (some c) := by
  rintro r rfl hr
  rcases recent_of_next h with rfl | ⟨r', -, rfl⟩
  · exact absurd rfl hr
  · exact mayLead_of_next hr

/-- **Characters that do not join** are read after a comment as without it. -/
theorem next_of_not_joined {r : Recent} {last : Option Char} {c : Char}
    (hr : (Mode.code r).Follows last) (h : (mayFollow c && last.any mayLead) = false) :
    (Mode.code r).next c = (Mode.code .fresh).next c := by
  by_cases hfresh : r = .fresh
  · rw [hfresh]
  · rw [hr r rfl hfresh, Bool.and_true] at h
    simp only [mayFollow, Bool.or_eq_false_iff, List.contains_eq_mem, List.mem_cons,
      List.not_mem_nil, or_false, decide_eq_false_iff_not, not_or] at h
    obtain ⟨hname, hbang, hopen, hstar⟩ := h
    have hdash : c ≠ '-' := by
      rintro rfl
      exact absurd hname (by decide)
    have hrecent : r.next c = Recent.fresh.next c := by
      rw [Recent.next, Recent.next, if_neg hbang, if_neg hbang, if_neg hdash, if_neg hdash, hname]
      by_cases hat : c ∈ ['@', '#']
      · simp only [List.mem_cons, List.not_mem_nil, or_false] at hat
        rcases hat with rfl | rfl <;> cases r <;> rfl
      · simp only [List.mem_cons, List.not_mem_nil, or_false, not_or] at hat
        have hnone : ¬(false || c = '@' || c = '#') = true := by simp [hat]
        rw [if_neg hnone, if_neg hnone]
    rw [Mode.next, Mode.next, decide_eq_false hopen, decide_eq_false hstar, hrecent]
    rfl

/-- A reader goes over a plain text to its end. -/
def Sound (l : Lexing) (t : List Char) : Prop :=
  (l.after t).isSome = true ∧ l.mode.isPlain t = true

theorem Leads.carries {l l' : Lexing} {t t' : List Char} (h : Leads l t l' t') (hs : Sound l t) :
    Sound l' t' :=
  ⟨h.sound ▸ hs.1, h.plain hs.2⟩

theorem Sound.step {l : Lexing} {c : Char} {t : List Char} (h : Sound l (c :: t)) :
    ∃ l', l.next c = some l' ∧ l.mode.admits c = true ∧ Sound l' t := by
  obtain ⟨hafter, hplain⟩ := h
  cases hnext : l.next c with
  | none =>
      have hnone : l.after (c :: t) = none := by
        show (l.next c).bind _ = none
        rw [hnext]
        rfl
      rw [hnone] at hafter
      cases hafter
  | some l' =>
      rw [Mode.isPlain, Bool.and_eq_true] at hplain
      exact ⟨l', rfl, hplain.1, (Leads.step hnext t).carries ⟨hafter, by
        rw [Mode.isPlain, Bool.and_eq_true]; exact hplain⟩⟩

/-- What is read of a text is read of it without its comments: from a place
    outside comments, right after a comment, and inside one. -/
structure Strips (t : List Char) : Prop where
  text : ∀ {l : Lexing} {last : Option Char}, Sound l t → l.mode ≠ .comment ∧ l.mode ≠ .star →
    (l.mode = .code .slash → t.head? ≠ some '*') → l.mode.quoting.Proper → l.mode.Follows last →
    apart (.text l.mode.quoting) last false t = true →
    ∃ l', Reads l (stripFrom (.text l.mode.quoting) t) l'
  gap : ∀ {r : Recent} {stack : List Bracket} {last : Option Char}, Sound ⟨.code .fresh, stack⟩ t →
    (Mode.code r).Follows last → apart (.text .code) last true t = true →
    ∃ l', Reads ⟨.code r, stack⟩ (stripFrom (.text .code) t) l'
  comment : ∀ {r : Recent} {stack : List Bracket} {last : Option Char},
    Sound ⟨.comment, stack⟩ t → (Mode.code r).Follows last → apart .comment last true t = true →
    ∃ l', Reads ⟨.code r, stack⟩ (stripFrom .comment t) l'

/-- A comment opens after a slash only. -/
theorem comment_of_next {m : Mode} {c : Char} (h : m.next c = some .comment) :
    m = .comment ∨ m = .star ∨ (m = .code .slash ∧ c = '*') := by
  rcases Mode.next_cases h with ⟨hm, -⟩ | ⟨_, _, -, heq | ⟨_, heq⟩⟩ | ⟨-, heq | heq | heq⟩ |
    ⟨r, hm, heq | ⟨hc, rfl, -⟩ | ⟨-, -, heq⟩ | heq⟩
  · exact hm.imp_right Or.inl
  case inr.inr.inr.inr.inl => exact Or.inr (Or.inr ⟨hm, hc⟩)
  all_goals cases heq

theorem star_of_next {m : Mode} {c : Char} (h : m.next c = some .star) :
    m = .comment ∨ m = .star := by
  rcases Mode.next_cases h with ⟨hm, -⟩ | ⟨_, _, -, heq | ⟨_, heq⟩⟩ | ⟨-, heq | heq | heq⟩ |
    ⟨r, -, heq | ⟨-, -, heq⟩ | ⟨-, -, heq⟩ | heq⟩
  · exact hm
  all_goals cases heq

/-- Only a slash is read as one. -/
theorem eq_slash_of_next {r : Recent} {c : Char} (h : r.next c = .slash) : c = '/' := by
  have hletter : ∀ d, r.letter d ≠ .slash := by
    intro d
    cases r with
    | word | url | dash => exact Recent.noConfusion
    | _ =>
        rw [Recent.letter]
        split <;> exact Recent.noConfusion
  have hhyphen : r.hyphen ≠ .slash := by
    cases r <;> exact Recent.noConfusion
  rw [Recent.next] at h
  split at h
  · assumption
  split at h
  · cases h
  split at h
  · split at h <;> cases h
  split at h
  · exact absurd h hhyphen
  split at h
  · exact absurd h (hletter _)
  · cases h

/-- What opens a comment in code. -/
def Opens (q : Quoting) (c : Char) (t : List Char) : Prop :=
  q = .code ∧ c = '/' ∧ t.head? = some '*'

theorem stripFrom_cons {q : Quoting} {c : Char} {t : List Char} (h : ¬Opens q c t) :
    stripFrom (.text q) (c :: t) = c :: stripFrom (.text (q.next c)) t := by
  rw [stripFrom]
  rintro s rfl rfl rfl
  exact h ⟨rfl, rfl, rfl⟩

theorem apart_cons {q : Quoting} {c : Char} {t : List Char} (h : ¬Opens q c t)
    (last : Option Char) (gap : Bool) :
    apart (.text q) last gap (c :: t) =
      (!(gap && mayFollow c && last.any mayLead) && apart (.text (q.next c)) (some c) false t) := by
  rw [apart]
  rintro s rfl rfl rfl
  exact h ⟨rfl, rfl, rfl⟩

/-- A character outside comments. -/
theorem Strips.cons {l l' : Lexing} {q : Quoting} {c : Char} {t : List Char} (ih : Strips t)
    (hadmits : l.mode.admits c = true) (hnext : l.next c = some l') (hsound : Sound l' t)
    (hmode : l.mode ≠ .comment ∧ l.mode ≠ .star) (hslash : ¬(l.mode = .code .slash ∧ c = '*'))
    (hq : l.mode.quoting = q) (hproper : q.Proper) (hopens : ¬Opens q c t)
    (hapart : apart (.text (q.next c)) (some c) false t = true) :
    ∃ l', Reads l (stripFrom (.text q) (c :: t)) l' := by
  subst hq
  have hm := Lexing.mode_of_next hnext
  have hcomment : l'.mode ≠ .comment := by
    intro heq
    rw [heq] at hm
    rcases comment_of_next hm with h | h | h
    · exact hmode.1 h
    · exact hmode.2 h
    · exact hslash h
  have hstar : l'.mode ≠ .star := by
    intro heq
    rw [heq] at hm
    rcases star_of_next hm with h | h
    · exact hmode.1 h
    · exact hmode.2 h
  have hquoting := quoting_next hproper hmode hm
  have hslash' : l'.mode = .code .slash → t.head? ≠ some '*' := by
    intro heq hhead
    rw [heq] at hm
    rcases recent_of_next hm with h | ⟨r, hr, hnext⟩
    · cases h
    · refine hopens ⟨?_, eq_slash_of_next hnext.symm, hhead⟩
      rw [hr]
      rfl
  rw [stripFrom_cons hopens, ← hquoting]
  rw [← hquoting] at hapart
  obtain ⟨l'', hreads⟩ := ih.text hsound ⟨hcomment, hstar⟩ hslash'
    (hquoting ▸ Quoting.proper_next hproper c) (follows_next hm) hapart
  exact ⟨l'', .cons hadmits hnext hcomment hreads⟩

section Step

variable {c : Char} {t : List Char} (hrest : Strips t)
  (hafter : ∀ {d : Char} {s : List Char}, t = d :: s → Strips s)

include hrest hafter

/-- The text goes on, or a comment opens. -/
theorem strips_text {l : Lexing} {last : Option Char} (hsound : Sound l (c :: t))
    (hmode : l.mode ≠ .comment ∧ l.mode ≠ .star)
    (hslash : l.mode = .code .slash → (c :: t).head? ≠ some '*') (hproper : l.mode.quoting.Proper)
    (hfollows : l.mode.Follows last)
    (hapart : apart (.text l.mode.quoting) last false (c :: t) = true) :
    ∃ l', Reads l (stripFrom (.text l.mode.quoting) (c :: t)) l' := by
  obtain ⟨l', hnext, hadmits, hsound'⟩ := hsound.step
  by_cases hopens : Opens l.mode.quoting c t
  · obtain ⟨hq, rfl, hhead⟩ := hopens
    obtain ⟨s, rfl⟩ := List.head?_eq_some_iff.mp hhead
    obtain ⟨-, -, hadmits', -⟩ := hsound'.step
    obtain ⟨r, hr⟩ := Mode.code_of_opening hmode hq (Lexing.mode_of_next hnext) hadmits'
    obtain ⟨mode, stack⟩ := l
    obtain rfl : mode = .code r := hr
    exact (hafter rfl).comment ((Leads.comment_open r stack s).carries hsound) hfollows hapart
  · rw [apart_cons hopens, Bool.and_eq_true] at hapart
    refine hrest.cons hadmits hnext hsound' hmode ?_ rfl hproper hopens hapart.2
    rintro ⟨hmode, rfl⟩
    exact hslash hmode rfl

/-- After a comment the text goes on as before it, or another one opens. -/
theorem strips_gap {r : Recent} {stack : List Bracket} {last : Option Char}
    (hsound : Sound ⟨.code .fresh, stack⟩ (c :: t)) (hfollows : (Mode.code r).Follows last)
    (hapart : apart (.text .code) last true (c :: t) = true) :
    ∃ l', Reads ⟨.code r, stack⟩ (stripFrom (.text .code) (c :: t)) l' := by
  obtain ⟨l', hnext, hadmits, hsound'⟩ := hsound.step
  by_cases hopens : Opens .code c t
  · obtain ⟨-, rfl, hhead⟩ := hopens
    obtain ⟨s, rfl⟩ := List.head?_eq_some_iff.mp hhead
    exact (hafter rfl).comment ((Leads.comment_open .fresh stack s).carries hsound) hfollows hapart
  · rw [apart_cons hopens, Bool.and_eq_true, Bool.not_eq_true', Bool.true_and] at hapart
    have hsame := next_of_not_joined hfollows hapart.1
    have hnext' : Lexing.next ⟨.code r, stack⟩ c = some l' := by
      rw [← hnext, Lexing.next, Lexing.next, hsame]
      rfl
    refine hrest.cons (q := .code) hadmits hnext' hsound' (by simp) ?_ rfl trivial hopens hapart.2
    rintro ⟨hr, rfl⟩
    cases hr
    cases hsame

/-- A comment goes on, or ends. -/
theorem strips_comment {r : Recent} {stack : List Bracket} {last : Option Char}
    (hsound : Sound ⟨.comment, stack⟩ (c :: t)) (hfollows : (Mode.code r).Follows last)
    (hapart : apart .comment last true (c :: t) = true) :
    ∃ l', Reads ⟨.code r, stack⟩ (stripFrom .comment (c :: t)) l' := by
  by_cases hend : c = '*' ∧ t.head? = some '/'
  · obtain ⟨rfl, hhead⟩ := hend
    obtain ⟨s, rfl⟩ := List.head?_eq_some_iff.mp hhead
    exact (hafter rfl).gap ((Leads.comment_close stack s).carries hsound) hfollows hapart
  · have hstrip : stripFrom .comment (c :: t) = stripFrom .comment t := by
      rw [stripFrom]
      rintro s rfl rfl
      exact hend ⟨rfl, rfl⟩
    have hapart' : apart .comment last true (c :: t) = apart .comment last true t := by
      rw [apart]
      rintro s rfl rfl
      exact hend ⟨rfl, rfl⟩
    rw [hstrip]
    rw [hapart'] at hapart
    exact hrest.comment ((Leads.comment_cons hend).carries hsound) hfollows hapart

end Step

/-- **Removing comments** does not change how a plain text is read. -/
theorem strips (t : List Char) : Strips t := by
  induction hlen : t.length using Nat.strongRecOn generalizing t with
  | ind len ih =>
      subst hlen
      cases t with
      | nil =>
          exact ⟨fun _ _ _ _ _ _ => ⟨_, .nil _⟩, fun _ _ _ => ⟨_, .nil _⟩,
            fun _ _ _ => ⟨_, .nil _⟩⟩
      | cons c t =>
          have hrest := ih t.length (Nat.lt_succ_self _) t rfl
          have hafter : ∀ {d : Char} {s : List Char}, t = d :: s → Strips s := by
            rintro d s rfl
            refine ih s.length ?_ s rfl
            simp only [List.length_cons]
            omega
          exact ⟨strips_text hrest hafter, strips_gap hrest hafter, strips_comment hrest hafter⟩

/-! ## Tame texts -/

/-- **Tame texts**: the passes read them as the tokens do, and their comments
    stand apart. -/
def Tame (t : List Char) : Prop :=
  (Mode.code .fresh).isPlain t = true ∧ apart (.text .code) none false t = true

instance (t : List Char) : Decidable (Tame t) :=
  inferInstanceAs (Decidable (_ ∧ _))

/-- A sound tame text is read to its end without its comments. -/
theorem exists_reads_stripComments {css : String} (htame : Tame css.toList)
    (h : validate css = .ok ()) : ∃ l, Reads {} (stripComments css.toList) l := by
  obtain ⟨hplain, hapart⟩ := htame
  have hsound : Sound {} css.toList := ⟨(validate_iff_of_plain hplain).mp h, hplain⟩
  refine (strips css.toList).text hsound (by simp) ?_ trivial ?_ hapart
  · intro hslash
    cases hslash
  · rintro r ⟨rfl⟩ hr
    exact absurd rfl hr

/-- A text that a plain run reads to its end is sound. -/
theorem validate_of_reads {t : List Char} {l : Lexing} (h : Reads {} t l) :
    validate (String.ofList t) = .ok () := by
  rw [validate_iff_of_plain, String.toList_ofList, h.after_eq]
  · rfl
  · rw [String.toList_ofList]
    exact h.isPlain

end PageLoom.Css
