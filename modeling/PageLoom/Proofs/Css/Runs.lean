import PageLoom.Proofs.Css.Reading
import PageLoom.Proofs.Css.Stripped

/-!
# Plain runs — what a reader keeps and what it counts

    A plain run stands outside comments throughout, and in a bare url the
    innermost open bracket is the one that opened it (`Lexing.Settled`).
    The braces it leaves open are those that segmentation counts
    (`Reads.curlies`), the other brackets those that the selector splitter
    counts (`Reads.others`).

    White space at either end of a text does not matter to what can follow
    (`Reads.trim`).  A run never looks at brackets below the ones it opens:
    it can be put inside other brackets (`Reads.within`), and taken out of
    a block that it does not close (`Reads.exists_without`).
-/

namespace PageLoom.Css

open Text Token

/-! ## Places of plain runs -/

/-- A place that a plain run comes to. -/
structure Lexing.Settled (l : Lexing) : Prop where
  proper : l.mode.quoting.Proper
  outside : l.mode ≠ .comment ∧ l.mode ≠ .star
  url : l.mode.isUrl = true → l.stack.head? = some .round

theorem settled_code (r : Recent) (stack : List Bracket) :
    Lexing.Settled ⟨.code r, stack⟩ :=
  ⟨trivial, by simp, fun h => by cases h⟩

/-- Outside comments, brackets count where no string is open. -/
theorem Mode.counts_iff {m : Mode} (h : m ≠ .comment ∧ m ≠ .star) :
    m.counts = true ↔ m.quoting = .code := by
  cases m with
  | comment => exact absurd rfl h.1
  | star => exact absurd rfl h.2
  | string quote stretch =>
      cases stretch <;> exact iff_of_false Bool.false_ne_true (by simp [quoting])
  | _ => exact iff_of_true rfl rfl

/-- Bare urls of plain texts hold no braces. -/
theorem Mode.not_url_of_brace {m : Mode} {c : Char} (hc : c = '{' ∨ c = '}')
    (h : m.admits c = true) : m.isUrl = false := by
  cases m with
  | urlStart => rcases hc with rfl | rfl <;> exact absurd h Bool.false_ne_true
  | url => rcases hc with rfl | rfl <;> exact absurd h Bool.false_ne_true
  | urlSlash => rcases hc with rfl | rfl <;> exact absurd h Bool.false_ne_true
  | urlEnd => rcases hc with rfl | rfl <;> exact absurd h Bool.false_ne_true
  | _ => rfl

/-- **What a character does** outside comments. -/
theorem Lexing.next_iff {l l' : Lexing} {c : Char} (h : l.mode ≠ .comment ∧ l.mode ≠ .star) :
    l.next c = some l' ↔ l.mode.next c = some l'.mode ∧
      if l.mode.quoting = .code then turn l.stack c = some l'.stack else l'.stack = l.stack := by
  obtain ⟨mode', stack'⟩ := l'
  rw [Lexing.next, Option.bind_eq_some_iff]
  by_cases hcode : l.mode.quoting = .code
  · simp only [(Mode.counts_iff h).mpr hcode, hcode, if_true]
    constructor
    · rintro ⟨m, hm, hl⟩
      obtain ⟨stack, hstack, heq⟩ := Option.map_eq_some_iff.mp hl
      cases heq
      exact ⟨hm, hstack⟩
    · rintro ⟨hm, hstack⟩
      exact ⟨mode', hm, Option.map_eq_some_iff.mpr ⟨stack', hstack, rfl⟩⟩
  · simp only [mt (Mode.counts_iff h).mp hcode, hcode, if_false]
    constructor
    · rintro ⟨m, hm, hl⟩
      cases hl
      exact ⟨hm, rfl⟩
    · rintro ⟨hm, hstack⟩
      exact ⟨mode', hm, congrArg (fun s => some (Lexing.mk mode' s)) hstack.symm⟩

/-! ## Brackets -/

namespace Bracket

/-- The character that opens a bracket. -/
def opening : Bracket → Char
  | .curly => '{'
  | .square => '['
  | .round => '('

/-- The character that closes a bracket. -/
def closing : Bracket → Char
  | .curly => '}'
  | .square => ']'
  | .round => ')'

end Bracket

/-- **What a character does to the open brackets**, case by case. -/
theorem turn_cases {stack stack' : List Bracket} {c : Char} (h : turn stack c = some stack') :
    (∃ b : Bracket, c = b.opening ∧ stack' = b :: stack) ∨
      (∃ b : Bracket, c = b.closing ∧ stack = b :: stack') ∨
      (c ∉ ['(', ')', '[', ']', '{', '}'] ∧ stack' = stack) := by
  have hclose : ∀ b, close b stack = some stack' → stack = b :: stack' := by
    intro b hb
    cases stack with
    | nil => cases hb
    | cons b' stack =>
        rw [close] at hb
        split at hb
        · rename_i heq
          rw [heq, Option.some.inj hb]
        · cases hb
  by_cases hc : c ∈ ['(', ')', '[', ']', '{', '}']
  · simp only [List.mem_cons, List.not_mem_nil, or_false] at hc
    rcases hc with rfl | rfl | rfl | rfl | rfl | rfl
    · exact Or.inl ⟨.round, rfl, (Option.some.inj h).symm⟩
    · exact Or.inr (Or.inl ⟨.round, rfl, hclose _ h⟩)
    · exact Or.inl ⟨.square, rfl, (Option.some.inj h).symm⟩
    · exact Or.inr (Or.inl ⟨.square, rfl, hclose _ h⟩)
    · exact Or.inl ⟨.curly, rfl, (Option.some.inj h).symm⟩
    · exact Or.inr (Or.inl ⟨.curly, rfl, hclose _ h⟩)
  · rw [turn_other hc] at h
    exact Or.inr (Or.inr ⟨hc, (Option.some.inj h).symm⟩)

/-- The open braces. -/
def curlies (stack : List Bracket) : Nat :=
  stack.count .curly

/-- The open brackets that are no braces. -/
def others (stack : List Bracket) : Nat :=
  stack.countP (· != .curly)

theorem eq_nil_of_counts {stack : List Bracket} (hcurlies : curlies stack = 0)
    (hothers : others stack = 0) : stack = [] := by
  cases stack with
  | nil => rfl
  | cons b stack =>
      cases b with
      | curly => exact absurd hcurlies (by simp [curlies])
      | square => exact absurd hothers (by simp [others])
      | round => exact absurd hothers (by simp [others])

/-- Segmentation passes over brackets that are no braces. -/
theorem braces_other_bracket {b : Bracket} (hb : b ≠ .curly) (n : Nat) :
    braces n b.opening = some n ∧ braces n b.closing = some n := by
  cases b with
  | curly => exact absurd rfl hb
  | square =>
      exact ⟨braces_other (by decide) (by decide) fun h => absurd h.1 (by decide),
        braces_other (by decide) (by decide) fun h => absurd h.1 (by decide)⟩
  | round =>
      exact ⟨braces_other (by decide) (by decide) fun h => absurd h.1 (by decide),
        braces_other (by decide) (by decide) fun h => absurd h.1 (by decide)⟩

theorem curlies_cons_of_ne {b : Bracket} (hb : b ≠ .curly) (stack : List Bracket) :
    curlies (b :: stack) = curlies stack :=
  List.count_cons_of_ne hb

/-- A level that segmentation goes on from is the number of open braces. -/
theorem curlies_turn {stack stack' : List Bracket} {c : Char} {n m : Nat}
    (h : turn stack c = some stack') (hlevel : braces (curlies stack + n) c = some m) :
    m = curlies stack' + n := by
  rcases turn_cases h with ⟨b, rfl, rfl⟩ | ⟨b, rfl, rfl⟩ | ⟨hc, rfl⟩
  · by_cases hb : b = .curly
    · subst hb
      rw [Bracket.opening, braces_open, Option.some.injEq] at hlevel
      rw [← hlevel, curlies, curlies, List.count_cons_self]
      omega
    · rw [(braces_other_bracket hb _).1, Option.some.injEq] at hlevel
      rw [curlies_cons_of_ne hb, hlevel]
  · by_cases hb : b = .curly
    · subst hb
      rcases braces_cases hlevel with ⟨hc, -⟩ | ⟨-, -, rfl⟩ | ⟨-, hc, -⟩
      · cases hc
      · rw [curlies, curlies, List.count_cons_self]
        omega
      · exact absurd rfl hc
    · rw [(braces_other_bracket hb _).2, Option.some.injEq, curlies_cons_of_ne hb] at hlevel
      exact hlevel.symm
  · simp only [List.mem_cons, List.not_mem_nil, or_false, not_or] at hc
    rcases braces_cases hlevel with ⟨rfl, -⟩ | ⟨rfl, -⟩ | ⟨-, -, -, rfl⟩
    · exact absurd rfl hc.2.2.2.2.1
    · exact absurd rfl hc.2.2.2.2.2
    · rfl

/-- The bracket level is the number of other open brackets. -/
theorem others_turn {stack stack' : List Bracket} {c : Char} (h : turn stack c = some stack') :
    others stack' =
      if c = '(' ∨ c = '[' then others stack + 1
      else if c = ')' ∨ c = ']' then others stack - 1
      else others stack := by
  rcases turn_cases h with ⟨b, rfl, rfl⟩ | ⟨b, rfl, rfl⟩ | ⟨hc, rfl⟩
  · cases b <;> simp [others, Bracket.opening]
  · cases b <;> simp [others, Bracket.closing]
  · simp only [List.mem_cons, List.not_mem_nil, or_false, not_or] at hc
    rw [if_neg (by simp [hc]), if_neg (by simp [hc])]

/-! ## Bare urls -/

namespace Mode

/-- Where bare urls come from. -/
theorem isUrl_of_next {m m' : Mode} {c : Char} (h : m.next c = some m') (hurl : m'.isUrl = true) :
    (m = .code .url ∧ c = '(') ∨ m.isUrl = true := by
  rcases next_cases h with ⟨-, rfl | rfl | rfl⟩ | ⟨_, _, -, rfl | ⟨_, rfl⟩⟩ | ⟨hm, -⟩ |
    ⟨r, rfl, rfl | ⟨-, -, rfl⟩ | ⟨hc, rfl, -⟩ | rfl⟩
  case inr.inr.inl => exact Or.inr hm
  case inr.inr.inr.inr.inr.inl => exact Or.inl ⟨rfl, hc⟩
  all_goals cases hurl

/-- No bracket of a plain text keeps the reader in a bare url. -/
theorem not_bracket_in_url {m m' : Mode} {c : Char} (hm : m.isUrl = true) (hm' : m'.isUrl = true)
    (hadmits : m.admits c = true) (h : m.next c = some m') :
    c ∉ ['(', ')', '[', ']', '{', '}'] := by
  refine not_bracket_of_isUrlText ?_ ?_ ?_
  · cases m with
    | urlStart => exact hadmits
    | url => exact hadmits
    | urlSlash => exact (Bool.and_eq_true_iff.mp hadmits).1
    | urlEnd => exact hadmits
    | _ => cases hm
  · rintro rfl
    have hnone : m.next '(' = none := by
      cases m with
      | urlStart => rfl
      | url => rfl
      | urlSlash => rfl
      | urlEnd => rfl
      | _ => cases hm
    rw [hnone] at h
    cases h
  · rintro rfl
    rcases nextUrl_cases hm h with ⟨-, hc, -⟩ | ⟨-, ⟨-, rfl⟩ | ⟨hc, -⟩⟩
    · cases hc
    · cases hm'
    · exact hc rfl

end Mode

/-! ## Along a run -/

/-- **Places of plain runs stay settled.** -/
theorem Lexing.Settled.next {l l' : Lexing} {c : Char} (hs : l.Settled)
    (hadmits : l.mode.admits c = true) (hnext : l.next c = some l')
    (hcomment : l'.mode ≠ .comment) : l'.Settled := by
  obtain ⟨hmode, hstack⟩ := (Lexing.next_iff hs.outside).mp hnext
  refine ⟨?_, ⟨hcomment, ?_⟩, ?_⟩
  · rw [quoting_next hs.proper hs.outside hmode]
    exact Quoting.proper_next hs.proper c
  · intro hstar
    rw [hstar] at hmode
    exact (star_of_next hmode).elim hs.outside.1 hs.outside.2
  · intro hurl
    rcases Mode.isUrl_of_next hmode hurl with ⟨hm, rfl⟩ | hm
    · rw [hm] at hstack
      have hpush : some (Bracket.round :: l.stack) = some l'.stack := hstack
      rw [← Option.some.inj hpush]
      rfl
    · rw [if_pos (Mode.quoting_of_isUrl hm),
        turn_other (Mode.not_bracket_in_url hm hurl hadmits hmode), Option.some.injEq] at hstack
      rw [← hstack]
      exact hs.url hm

/-- A place outside strings and all brackets stands in code. -/
theorem Lexing.Settled.eq_code {l : Lexing} (hs : l.Settled) (hcode : l.mode.quoting = .code)
    (hstack : l.stack = []) : ∃ r, l = ⟨.code r, []⟩ := by
  obtain ⟨mode, stack⟩ := l
  obtain rfl : stack = [] := hstack
  rcases Mode.code_or_url hs.outside hcode with ⟨r, heq⟩ | hurl
  · exact ⟨r, congrArg (Lexing.mk · []) heq⟩
  · exact absurd (hs.url hurl) (by simp)

namespace Reads

variable {l l' l'' : Lexing} {a b t : List Char}

theorem settled (h : Reads l t l') (hs : l.Settled) : l'.Settled := by
  induction h with
  | nil _ => exact hs
  | cons hadmits hnext hcomment _ ih => exact ih (hs.next hadmits hnext hcomment)

/-- The passes follow a plain run into strings and out of them. -/
theorem quoting (h : Reads l t l') (hs : l.Settled) :
    l'.mode.quoting = l.mode.quoting.after t := by
  induction h with
  | nil _ => rfl
  | cons hadmits hnext hcomment _ ih =>
      rw [ih (hs.next hadmits hnext hcomment), Quoting.after_cons,
        quoting_next hs.proper hs.outside (Lexing.mode_of_next hnext)]

/-- **The open braces** are those that segmentation counts. -/
theorem curlies (h : Reads l t l') (hs : l.Settled) {m : Nat}
    (hlevel : levelAfter braces l.mode.quoting (curlies l.stack) t = some m) :
    Css.curlies l'.stack = m := by
  induction h generalizing m with
  | nil _ => exact Option.some.inj hlevel
  | @cons l l' _ c t hadmits hnext hcomment _ ih =>
      obtain ⟨hmode, hstack⟩ := (Lexing.next_iff hs.outside).mp hnext
      obtain ⟨n, hn, hrest⟩ := exists_levelNext hlevel
      have hstep : n = Css.curlies l'.stack := by
        rcases levelNext_eq_some hn with ⟨hq, rfl⟩ | ⟨hq, hk⟩
        · rw [if_neg hq] at hstack
          rw [hstack]
        · rw [if_pos hq] at hstack
          exact curlies_turn (n := 0) hstack hk
      rw [hstep, ← quoting_next hs.proper hs.outside hmode] at hrest
      exact ih (hs.next hadmits hnext hcomment) hrest

/-- **The other open brackets** are those that the selector splitter counts. -/
theorem others (h : Reads l t l') (hs : l.Settled) :
    Css.others l'.stack = bracketLevel l.mode.quoting (Css.others l.stack) t := by
  induction h with
  | nil _ => rfl
  | @cons l l' _ c t hadmits hnext hcomment _ ih =>
      obtain ⟨hmode, hstack⟩ := (Lexing.next_iff hs.outside).mp hnext
      rw [ih (hs.next hadmits hnext hcomment), bracketLevel,
        quoting_next hs.proper hs.outside hmode]
      congr 1
      by_cases hq : l.mode.quoting = .code
      · rw [if_pos hq] at hstack
        rw [if_neg (fun hne => hne hq), others_turn hstack]
      · rw [if_neg hq] at hstack
        rw [if_pos hq, hstack]

/-- **All brackets are closed** at the end of a text when the levels say so. -/
theorem stack_eq_nil (h : Reads {} t l) (hbraces : levelAfter braces .code 0 t = some 0)
    (hbrackets : bracketLevel .code 0 t = 0) : l.stack = [] := by
  refine eq_nil_of_counts (h.curlies (settled_code _ _) hbraces) ?_
  rw [h.others (settled_code _ _)]
  exact hbrackets

end Reads

/-- No comment opens along a plain run. -/
theorem Reads.not_opens {l l' : Lexing} {c : Char} {t : List Char} (h : Reads l (c :: t) l')
    (hs : l.Settled) : ¬Opens l.mode.quoting c t := by
  rintro ⟨hcode, rfl, hhead⟩
  obtain ⟨t, rfl⟩ := List.head?_eq_some_iff.mp hhead
  cases h with
  | cons _ hnext _ ht =>
      cases ht with
      | cons hadmits hnext' hcomment _ =>
          have hmode := Lexing.mode_of_next hnext
          have hmode' := Lexing.mode_of_next hnext'
          obtain ⟨r, hr⟩ := Mode.code_of_opening hs.outside hcode hmode hadmits
          have hslash : (Mode.code r).next '/' = some (.code .slash) := rfl
          rw [hr, hslash] at hmode
          rw [← Option.some.inj hmode] at hmode'
          exact hcomment (Option.some.inj hmode').symm

/-- **Removing comments** leaves a text without them as it is. -/
theorem Reads.stripFrom_eq {l l' : Lexing} {t : List Char} (h : Reads l t l') (hs : l.Settled) :
    stripFrom (.text l.mode.quoting) t = t := by
  induction t generalizing l with
  | nil => rw [stripFrom]
  | cons c t ih =>
      rw [stripFrom_cons (h.not_opens hs)]
      cases h with
      | cons hadmits hnext hcomment ht =>
          rw [← quoting_next hs.proper hs.outside (Lexing.mode_of_next hnext),
            ih ht (hs.next hadmits hnext hcomment)]

/-! ## Inside other brackets -/

/-- A place with more brackets around it. -/
def Lexing.within (l : Lexing) (outer : List Bracket) : Lexing :=
  ⟨l.mode, l.stack ++ outer⟩

/-- Brackets further out do not matter to a character. -/
theorem turn_within {stack stack' : List Bracket} {c : Char} (h : turn stack c = some stack')
    (outer : List Bracket) : turn (stack ++ outer) c = some (stack' ++ outer) := by
  rcases turn_cases h with ⟨b, rfl, rfl⟩ | ⟨b, rfl, rfl⟩ | ⟨hc, rfl⟩
  · cases b <;> rfl
  · cases b <;> rfl
  · exact turn_other hc _

/-- Inside a block that a character does not close, it does the same as
    outside. -/
theorem turn_without {stack outer stack'' : List Bracket} {c : Char} {m : Nat}
    (h : turn (stack ++ .curly :: outer) c = some stack'')
    (hlevel : braces (curlies stack + 1) c = some m) :
    ∃ stack', turn stack c = some stack' ∧ stack'' = stack' ++ .curly :: outer := by
  rcases turn_cases h with ⟨b, rfl, rfl⟩ | ⟨b, rfl, hb⟩ | ⟨hc, rfl⟩
  · exact ⟨b :: stack, by cases b <;> rfl, rfl⟩
  · cases stack with
    | nil =>
        -- the brace of the block would be closed
        obtain ⟨rfl, -⟩ := List.cons.inj hb
        cases hlevel
    | cons b' stack =>
        obtain ⟨rfl, rfl⟩ := List.cons.inj hb
        exact ⟨stack, by cases b' <;> rfl, rfl⟩
  · exact ⟨stack, turn_other hc _, rfl⟩

namespace Reads

variable {l l' l'' : Lexing} {t : List Char}

/-- **A run inside other brackets.** -/
theorem within (h : Reads l t l') (hs : l.Settled) (outer : List Bracket) :
    Reads (l.within outer) t (l'.within outer) := by
  induction h with
  | nil _ => exact .nil _
  | @cons l l' _ c t hadmits hnext hcomment _ ih =>
      obtain ⟨hmode, hstack⟩ := (Lexing.next_iff hs.outside).mp hnext
      have hwithin : (l.within outer).next c = some (l'.within outer) := by
        refine (Lexing.next_iff (l := l.within outer) hs.outside).mpr ⟨hmode, ?_⟩
        show if l.mode.quoting = .code then turn (l.stack ++ outer) c = some (l'.stack ++ outer)
          else l'.stack ++ outer = l.stack ++ outer
        split at hstack
        · rename_i hcode
          rw [if_pos hcode]
          exact turn_within hstack outer
        · rename_i hcode
          rw [if_neg hcode, hstack]
      exact .cons hadmits hwithin hcomment (ih (hs.next hadmits hnext hcomment))

/-- **A run inside a block** that it does not close is a run without the
    block. -/
theorem exists_without {outer : List Bracket} {m : Nat}
    (h : Reads (l.within (.curly :: outer)) t l'') (hs : l.Settled)
    (hlevel : levelAfter braces l.mode.quoting (Css.curlies l.stack + 1) t = some m) :
    ∃ l', Reads l t l' ∧ l'' = l'.within (.curly :: outer) := by
  induction t generalizing l m with
  | nil =>
      cases h with
      | nil _ => exact ⟨l, .nil l, rfl⟩
  | cons c t ih =>
      cases h with
      | @cons _ k _ _ _ hadmits hnext hcomment ht =>
          obtain ⟨n, hn, hrest⟩ := exists_levelNext hlevel
          obtain ⟨hmode, hstack⟩ := (Lexing.next_iff (l := l.within _) hs.outside).mp hnext
          have hstep : ∃ l', l.next c = some l' ∧ k = l'.within (.curly :: outer) ∧
              n = Css.curlies l'.stack + 1 := by
            rcases levelNext_eq_some hn with ⟨hq, rfl⟩ | ⟨hq, hk⟩
            · rw [if_neg (show ¬(l.within _).mode.quoting = .code from hq)] at hstack
              refine ⟨⟨k.mode, l.stack⟩, ?_, ?_, rfl⟩
              · exact (Lexing.next_iff hs.outside).mpr ⟨hmode, by rw [if_neg hq]⟩
              · exact congrArg (Lexing.mk k.mode) hstack
            · rw [if_pos (show (l.within _).mode.quoting = .code from hq)] at hstack
              obtain ⟨stack', hturn, hk'⟩ := turn_without hstack hk
              refine ⟨⟨k.mode, stack'⟩, ?_, congrArg (Lexing.mk k.mode) hk', curlies_turn hturn hk⟩
              exact (Lexing.next_iff hs.outside).mpr ⟨hmode, by rw [if_pos hq]; exact hturn⟩
          obtain ⟨l', hnext', rfl, rfl⟩ := hstep
          rw [← quoting_next hs.proper hs.outside (Lexing.mode_of_next hnext')] at hrest
          obtain ⟨l'', hreads, heq⟩ := ih ht (hs.next hadmits hnext' hcomment) hrest
          exact ⟨l'', .cons hadmits hnext' hcomment hreads, heq⟩

end Reads

/-! ## White space -/

/-- Places that white space leads between: strings, bare urls and code stay
    what they are, and the open brackets stay open. -/
structure Lexing.Alike (l l' : Lexing) : Prop where
  stack : l'.stack = l.stack
  string : l'.mode.quoting = .code ↔ l.mode.quoting = .code
  url : l'.mode.isUrl = l.mode.isUrl

namespace Lexing.Alike

variable {l l' l'' : Lexing}

theorem refl (l : Lexing) : l.Alike l :=
  ⟨rfl, Iff.rfl, rfl⟩

theorem trans (h : l.Alike l') (h' : l'.Alike l'') : l.Alike l'' :=
  ⟨h'.stack.trans h.stack, h'.string.trans h.string, h'.url.trans h.url⟩

/-- Code comes from code. -/
theorem exists_code {r : Recent} {stack : List Bracket} (h : l.Alike ⟨.code r, stack⟩)
    (hs : l.Settled) : ∃ r', l = ⟨.code r', stack⟩ := by
  obtain ⟨mode, stack'⟩ := l
  obtain rfl : stack = stack' := h.stack
  rcases Mode.code_or_url hs.outside (h.string.mp rfl) with ⟨r', heq⟩ | hurl
  · exact ⟨r', congrArg (Lexing.mk · stack) heq⟩
  · exact absurd (h.url.trans hurl) Bool.false_ne_true

theorem of_isBlank {c : Char} (hs : l.Settled) (hadmits : l.mode.admits c = true)
    (hnext : l.next c = some l') (hc : isBlank c = true) : l.Alike l' := by
  obtain ⟨hmode, hstack⟩ := (Lexing.next_iff hs.outside).mp hnext
  have hquote := Quoting.isQuote_of_isBlank hc
  refine ⟨?_, ?_, ?_⟩
  · split at hstack
    · rw [turn_other (not_bracket_of_isBlank hc), Option.some.injEq] at hstack
      exact hstack.symm
    · exact hstack
  · rw [quoting_next hs.proper hs.outside hmode,
      Quoting.next_of_plain hs.proper hquote (Quoting.ne_backslash_of_isBlank hc),
      Quoting.settle_eq_code_iff]
  · cases hurl : l.mode.isUrl with
    | true =>
        rcases Mode.nextUrl_cases hurl hmode with ⟨-, hq, -⟩ | ⟨-, ⟨rfl, -⟩ | ⟨-, hm⟩⟩
        · rw [hquote] at hq
          cases hq
        · exact absurd hc (by decide)
        · exact hm
    | false =>
        cases hurl' : l'.mode.isUrl with
        | false => rfl
        | true =>
            rcases Mode.isUrl_of_next hmode hurl' with ⟨-, rfl⟩ | h
            · exact absurd hc (by decide)
            · rw [hurl] at h
              cases h

end Lexing.Alike

namespace Reads

variable {l l' : Lexing} {b t : List Char} {stack : List Bracket}

theorem alike (h : Reads l b l') (hs : l.Settled) (hb : AllBlank b) : l.Alike l' := by
  induction h with
  | nil l => exact Lexing.Alike.refl l
  | cons hadmits hnext hcomment _ ih =>
      obtain ⟨hc, hb⟩ := allBlank_cons.mp hb
      exact (Lexing.Alike.of_isBlank hs hadmits hnext hc).trans
        (ih (hs.next hadmits hnext hcomment) hb)

/-- White space leaves fresh code as it is. -/
theorem eq_of_allBlank (h : Reads ⟨.code .fresh, stack⟩ b l') (hb : AllBlank b) :
    l' = ⟨.code .fresh, stack⟩ := by
  induction b with
  | nil =>
      cases h with
      | nil _ => rfl
  | cons c b ih =>
      obtain ⟨hc, hb⟩ := allBlank_cons.mp hb
      cases h with
      | @cons _ k _ _ _ hadmits hnext hcomment ht =>
          obtain ⟨hmode, hstack⟩ := (Lexing.next_iff (by simp)).mp hnext
          have hforeign : Mode.isForeign c = false := by
            rw [← Bool.not_eq_true']
            exact hadmits
          have hsame : k = ⟨.code .fresh, stack⟩ := by
            obtain ⟨mode, stack'⟩ := k
            rw [Mode.next_of_isBlank hc hforeign] at hmode
            have hturn : turn stack c = some stack' := hstack
            rw [turn_other (not_bracket_of_isBlank hc)] at hturn
            cases hmode
            cases hturn
            rfl
          rw [hsame] at ht
          exact ih ht hb

/-- White space at the start of a text does not matter. -/
theorem trimStart (h : Reads ⟨.code .fresh, stack⟩ t l') :
    Reads ⟨.code .fresh, stack⟩ (trimStart t) l' := by
  obtain ⟨a, ha, ht, -⟩ := exists_trimStart t
  rw [ht] at h
  obtain ⟨k, hk, h⟩ := h.exists_of_append
  rw [hk.eq_of_allBlank ha] at h
  exact h

/-- **Trimming** does not change what can follow a text. -/
theorem trim (h : Reads ⟨.code .fresh, stack⟩ t l') :
    ∃ l, Reads ⟨.code .fresh, stack⟩ (trim t) l ∧ l.Alike l' := by
  have hstart := h.trimStart
  obtain ⟨b, hb, ht, -⟩ := exists_trimEnd (Text.trimStart t)
  rw [ht] at hstart
  obtain ⟨l, hl, hlb⟩ := hstart.exists_of_append
  exact ⟨l, hl, hlb.alike (hl.settled (settled_code _ _)) hb⟩

/-- Trimming a text that ends in code. -/
theorem exists_trim {r : Recent} {stack' : List Bracket}
    (h : Reads ⟨.code .fresh, stack⟩ t ⟨.code r, stack'⟩) :
    ∃ r, Reads ⟨.code .fresh, stack⟩ (Text.trim t) ⟨.code r, stack'⟩ := by
  obtain ⟨l, hl, halike⟩ := h.trim
  obtain ⟨r', rfl⟩ := halike.exists_code (hl.settled (settled_code _ _))
  exact ⟨r', hl⟩

end Reads

end PageLoom.Css
