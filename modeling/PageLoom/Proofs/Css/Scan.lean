import PageLoom.Css.Segment
import PageLoom.Css.Sheet
import PageLoom.Proofs.Text.Trim

/-!
# Scans that cut — segmentation and comma splitting as one theory

    Segmentation counts braces and cuts after closing ones; the selector
    splitter counts brackets and cuts at commas.  Both skip strings and
    both are an instance of `levelAfter`: a counter that runs over the
    characters outside strings and stops at the first cut.  A text either
    has no cut (`levelAfter` is some level) or falls into a first piece and
    the text after it (`exists_cut`), and the pieces are read off in either
    case (`segments_of_uncut`, `segments_of_cut`, `members_of_uncut`,
    `members_of_cut`).  Every fact about pieces is an induction on those
    two cases.
-/

namespace PageLoom.Css

open Text

/-! ## String literals -/

namespace Quoting

/-- A scan that can be met: only quotes close literals. -/
def Proper : Quoting → Prop
  | .code => True
  | .inside quote => isQuote quote = true
  | .escaped quote => isQuote quote = true

/-- Where a scan stands once a character without meaning has been read. -/
def settle : Quoting → Quoting
  | .escaped quote => .inside quote
  | q => q

theorem next_code_of_not_quote {c : Char} (h : isQuote c = false) : code.next c = .code := by
  show (if isQuote c then Quoting.inside c else .code) = .code
  rw [h]
  rfl

theorem proper_next {q : Quoting} (hq : q.Proper) (c : Char) : (q.next c).Proper := by
  cases q with
  | code =>
      cases hc : isQuote c with
      | true =>
          show (if isQuote c then Quoting.inside c else .code).Proper
          rw [hc]
          exact hc
      | false =>
          rw [next_code_of_not_quote hc]
          exact trivial
  | inside quote =>
      show (if c = '\\' then Quoting.escaped quote
        else if c = quote then .code else .inside quote).Proper
      split
      · exact hq
      · split
        · exact trivial
        · exact hq
  | escaped quote => exact hq

theorem proper_after {q : Quoting} (hq : q.Proper) (t : List Char) : (q.after t).Proper := by
  induction t generalizing q with
  | nil => exact hq
  | cons c t ih => exact ih (proper_next hq c)

/-- A character that is neither quote nor backslash opens and closes nothing. -/
theorem next_of_plain {q : Quoting} (hq : q.Proper) {c : Char} (hc : isQuote c = false)
    (hb : c ≠ '\\') : q.next c = q.settle := by
  cases q with
  | code => exact next_code_of_not_quote hc
  | inside quote =>
      have hne : c ≠ quote := by
        rintro rfl
        exact Bool.false_ne_true (hc.symm.trans hq)
      show (if c = '\\' then Quoting.escaped quote
        else if c = quote then .code else .inside quote) = .inside quote
      rw [if_neg hb, if_neg hne]
  | escaped quote => rfl

@[simp] theorem settle_settle (q : Quoting) : q.settle.settle = q.settle := by
  cases q <;> rfl

theorem settle_eq_code_iff {q : Quoting} : q.settle = .code ↔ q = .code := by
  cases q <;> simp [settle]

/-- Inside a literal or after a backslash in it, a plain character leads to the
    same place. -/
theorem next_eq_of_settle_eq {q r : Quoting} (hq : q.Proper) (hr : r.Proper)
    (h : q.settle = r.settle) {c : Char} (hc : isQuote c = false) (hb : c ≠ '\\') :
    q.next c = r.next c := by
  rw [next_of_plain hq hc hb, next_of_plain hr hc hb, h]

theorem isQuote_of_isBlank {c : Char} (h : isBlank c = true) : isQuote c = false := by
  cases hc : isQuote c with
  | false => rfl
  | true =>
      simp only [isQuote, Bool.or_eq_true, beq_iff_eq] at hc
      rcases hc with rfl | rfl <;> exact absurd h (by decide)

theorem ne_backslash_of_isBlank {c : Char} (h : isBlank c = true) : c ≠ '\\' :=
  ne_of_isBlank h (by decide)

/-- White space settles a scan and does nothing else. -/
theorem settle_after_allBlank {q : Quoting} (hq : q.Proper) {b : List Char} (hb : AllBlank b) :
    (q.after b).settle = q.settle := by
  induction b generalizing q with
  | nil => rfl
  | cons c b ih =>
      obtain ⟨hc, hb⟩ := allBlank_cons.mp hb
      show ((q.next c).after b).settle = q.settle
      rw [ih (proper_next hq c) hb,
        next_of_plain hq (isQuote_of_isBlank hc) (ne_backslash_of_isBlank hc), settle_settle]

/-- White space does not move a scan that is settled. -/
theorem after_allBlank {q : Quoting} (hq : q.Proper) (hs : q.settle = q) {b : List Char}
    (hb : AllBlank b) : q.after b = q := by
  induction b with
  | nil => rfl
  | cons c b ih =>
      obtain ⟨hc, hb⟩ := allBlank_cons.mp hb
      show (q.next c).after b = q
      rw [next_of_plain hq (isQuote_of_isBlank hc) (ne_backslash_of_isBlank hc), hs]
      exact ih hb

/-- White space keeps a scan in code. -/
theorem code_after_allBlank {b : List Char} (hb : AllBlank b) : code.after b = .code :=
  after_allBlank (q := .code) trivial rfl hb

/-- A text without quotes keeps a scan in code. -/
theorem code_after_of_not_quote {t : List Char} (h : ∀ c ∈ t, isQuote c = false) :
    code.after t = .code := by
  induction t with
  | nil => rfl
  | cons c t ih =>
      obtain ⟨hc, ht⟩ := List.forall_mem_cons.mp h
      show (code.next c).after t = .code
      rw [next_code_of_not_quote hc]
      exact ih ht

/-- Before a character that neither quotes nor escapes a scan stands outside
    strings, if it does after it. -/
theorem code_after_of_plain {v b : List Char} {c : Char} (hc : isQuote c = false ∧ c ≠ '\\')
    (hb : AllBlank b) (h : code.after (v ++ c :: b) = .code) :
    code.after v = .code := by
  have hproper := proper_after (q := .code) trivial v
  have hsettle := settle_after_allBlank (proper_next hproper c) hb
  rw [after_append, after_cons] at h
  rw [h, next_of_plain hproper hc.1 hc.2, settle_settle] at hsettle
  exact settle_eq_code_iff.mp hsettle.symm

end Quoting

/-! ## Brackets of one kind -/

/-- The brackets open after a character; inside strings none count, and a closing
    one with nothing open closes nothing. -/
def openNext (opens closes : Char) (q : Quoting) (n : Nat) (c : Char) : Nat :=
  if q ≠ .code then n else if c = opens then n + 1 else if c = closes then n - 1 else n

/-- **The brackets open after a text**, strings skipped. -/
def openAfter (opens closes : Char) : Quoting → Nat → List Char → Nat
  | _, n, [] => n
  | q, n, c :: t => openAfter opens closes (q.next c) (openNext opens closes q n c) t

section Brackets

variable {opens closes : Char}

theorem openAfter_append (q : Quoting) (n : Nat) (a b : List Char) :
    openAfter opens closes q n (a ++ b) =
      openAfter opens closes (q.after a) (openAfter opens closes q n a) b := by
  induction a generalizing q n with
  | nil => rfl
  | cons c a ih => exact ih (q.next c) _

/-- Other characters open and close nothing. -/
theorem openNext_other {c : Char} (hopens : c ≠ opens) (hcloses : c ≠ closes) (q : Quoting)
    (n : Nat) : openNext opens closes q n c = n := by
  rw [openNext, if_neg hopens, if_neg hcloses, ite_self]

/-- White space opens and closes nothing. -/
theorem openAfter_allBlank (hopens : isBlank opens = false) (hcloses : isBlank closes = false)
    {b : List Char} (hb : AllBlank b) (q : Quoting) (n : Nat) :
    openAfter opens closes q n b = n := by
  induction b generalizing q with
  | nil => rfl
  | cons c b ih =>
      obtain ⟨hc, hb⟩ := allBlank_cons.mp hb
      rw [openAfter, openNext_other (ne_of_isBlank hc hopens) (ne_of_isBlank hc hcloses), ih hb]

end Brackets

/-! ## Counters -/

/-- What a character outside strings makes of a level; none when the character
    is a cut. -/
abbrev Counter := Nat → Char → Option Nat

/-- The counter of segmentation. -/
def braces : Counter := fun n c =>
  if c = '{' then some (n + 1)
  else if c = '}' then if 1 < n then some (n - 1) else none
  else if c = ';' ∧ n = 0 then none
  else some n

/-- The counter of the selector splitter. -/
def brackets : Counter := fun n c =>
  if c = '(' ∨ c = '[' then some (n + 1)
  else if c = ')' ∨ c = ']' then some (n - 1)
  else if c = ',' ∧ n = 0 then none
  else some n

/-- The level after a character. -/
def levelNext (k : Counter) (q : Quoting) (n : Nat) (c : Char) : Option Nat :=
  if q = .code then k n c else some n

/-- **The level after a text**, none when a character of it is a cut. -/
def levelAfter (k : Counter) : Quoting → Nat → List Char → Option Nat
  | _, n, [] => some n
  | q, n, c :: cs => (levelNext k q n c).bind fun n => levelAfter k (q.next c) n cs

theorem levelNext_code (k : Counter) (n : Nat) (c : Char) : levelNext k .code n c = k n c := rfl

theorem levelNext_of_ne {q : Quoting} (h : q ≠ .code) (k : Counter) (n : Nat) (c : Char) :
    levelNext k q n c = some n :=
  if_neg h

theorem levelAfter_cons_of_some {k : Counter} {q : Quoting} {n m : Nat} {c : Char}
    (h : levelNext k q n c = some m) (t : List Char) :
    levelAfter k q n (c :: t) = levelAfter k (q.next c) m t := by
  show (levelNext k q n c).bind (fun n => levelAfter k (q.next c) n t) = _
  rw [h]
  rfl

/-- **What a character without a cut does**, by where the scan stands. -/
theorem levelNext_eq_some {k : Counter} {q : Quoting} {n l : Nat} {c : Char}
    (h : levelNext k q n c = some l) : (q ≠ .code ∧ l = n) ∨ (q = .code ∧ k n c = some l) := by
  by_cases hq : q = .code
  · subst hq
    exact Or.inr ⟨rfl, h⟩
  · rw [levelNext_of_ne hq] at h
    exact Or.inl ⟨hq, (Option.some.inj h).symm⟩

/-- The first step of a text without a cut. -/
theorem exists_levelNext {k : Counter} {q : Quoting} {n m : Nat} {c : Char} {t : List Char}
    (h : levelAfter k q n (c :: t) = some m) :
    ∃ l, levelNext k q n c = some l ∧ levelAfter k (q.next c) l t = some m :=
  Option.bind_eq_some_iff.mp h

/-- Counting over two texts in turn is counting over their concatenation. -/
theorem levelAfter_append (k : Counter) (q : Quoting) (n : Nat) (a b : List Char) :
    levelAfter k q n (a ++ b) =
      (levelAfter k q n a).bind fun m => levelAfter k (q.after a) m b := by
  induction a generalizing q n with
  | nil => rfl
  | cons c a ih =>
      show (levelNext k q n c).bind (fun m => levelAfter k (q.next c) m (a ++ b)) =
        ((levelNext k q n c).bind fun m => levelAfter k (q.next c) m a).bind
          fun m => levelAfter k ((q.next c).after a) m b
      cases levelNext k q n c with
      | none => rfl
      | some m => exact ih (q.next c) m

theorem levelAfter_append_of_some {k : Counter} {q : Quoting} {n m : Nat} {a : List Char}
    (h : levelAfter k q n a = some m) (b : List Char) :
    levelAfter k q n (a ++ b) = levelAfter k (q.after a) m b := by
  rw [levelAfter_append, h]
  rfl

/-- The start of a text without a cut has none. -/
theorem exists_levelAfter_of_append {k : Counter} {q : Quoting} {n m : Nat} {a b : List Char}
    (h : levelAfter k q n (a ++ b) = some m) :
    ∃ l, levelAfter k q n a = some l ∧ levelAfter k (q.after a) l b = some m := by
  rw [levelAfter_append, Option.bind_eq_some_iff] at h
  exact h

/-- **The first cut**: a text whose level is lost has a first character that is
    a cut, outside strings. -/
theorem exists_cut {k : Counter} {q : Quoting} {n : Nat} {t : List Char}
    (h : levelAfter k q n t = none) :
    ∃ u c rest m, t = u ++ c :: rest ∧ q.after u = .code ∧
      levelAfter k q n u = some m ∧ k m c = none := by
  induction t generalizing q n with
  | nil => cases h
  | cons c t ih =>
      cases hc : levelNext k q n c with
      | none =>
          by_cases hq : q = .code
          · subst hq
            exact ⟨[], c, t, n, rfl, rfl, rfl, hc⟩
          · rw [levelNext_of_ne hq] at hc
            cases hc
      | some m =>
          rw [levelAfter_cons_of_some hc] at h
          obtain ⟨u, d, rest, l, rfl, hu, hl, hcut⟩ := ih h
          refine ⟨c :: u, d, rest, l, rfl, hu, ?_, hcut⟩
          rw [levelAfter_cons_of_some hc]
          exact hl

/-- A character that a counter passes over at every level. -/
def Skips (k : Counter) (c : Char) : Prop :=
  ∀ n, k n c = some n

/-- A text of characters that the counter passes over keeps the level. -/
theorem levelAfter_of_skips {k : Counter} {t : List Char} (h : ∀ c ∈ t, Skips k c)
    (q : Quoting) (n : Nat) : levelAfter k q n t = some n := by
  induction t generalizing q with
  | nil => rfl
  | cons c t ih =>
      obtain ⟨hc, ht⟩ := List.forall_mem_cons.mp h
      have hnext : levelNext k q n c = some n := by
        by_cases hq : q = .code
        · rw [hq, levelNext_code]
          exact hc n
        · exact levelNext_of_ne hq k n c
      rw [levelAfter_cons_of_some hnext]
      exact ih ht (q.next c)

/-! ## The two counters -/

theorem braces_open (n : Nat) : braces n '{' = some (n + 1) := rfl

theorem braces_close {n : Nat} (h : 1 < n) : braces n '}' = some (n - 1) :=
  if_pos h

theorem braces_other {n : Nat} {c : Char} (h1 : c ≠ '{') (h2 : c ≠ '}')
    (h3 : ¬(c = ';' ∧ n = 0)) : braces n c = some n := by
  show (if c = '{' then some (n + 1)
    else if c = '}' then if 1 < n then some (n - 1) else none
    else if c = ';' ∧ n = 0 then none else some n) = some n
  rw [if_neg h1, if_neg h2, if_neg h3]

/-- What is a cut for the braces. -/
theorem braces_eq_none_iff {n : Nat} {c : Char} :
    braces n c = none ↔ (c = '}' ∧ n ≤ 1) ∨ (c = ';' ∧ n = 0) := by
  by_cases h1 : c = '{'
  · subst h1
    rw [braces_open]
    simp
  · by_cases h2 : c = '}'
    · subst h2
      by_cases h : 1 < n
      · rw [braces_close h]
        simp
        omega
      · have hnone : braces n '}' = none := if_neg h
        rw [hnone]
        simp
        omega
    · by_cases h3 : c = ';' ∧ n = 0
      · obtain ⟨rfl, rfl⟩ := h3
        exact iff_of_true rfl (Or.inr ⟨rfl, rfl⟩)
      · rw [braces_other h1 h2 h3]
        simp [h2, h3]

/-- **What a character does to the brace level**, case by case. -/
theorem braces_cases {n l : Nat} {c : Char} (h : braces n c = some l) :
    (c = '{' ∧ l = n + 1) ∨ (c = '}' ∧ 1 < n ∧ l = n - 1) ∨
      (c ≠ '{' ∧ c ≠ '}' ∧ ¬(c = ';' ∧ n = 0) ∧ l = n) := by
  by_cases h1 : c = '{'
  · subst h1
    exact Or.inl ⟨rfl, (Option.some.inj h).symm⟩
  · by_cases h2 : c = '}'
    · subst h2
      by_cases hn : 1 < n
      · rw [braces_close hn] at h
        exact Or.inr (Or.inl ⟨rfl, hn, (Option.some.inj h).symm⟩)
      · rw [braces_eq_none_iff.mpr (Or.inl ⟨rfl, by omega⟩)] at h
        cases h
    · by_cases h3 : c = ';' ∧ n = 0
      · rw [braces_eq_none_iff.mpr (Or.inr h3)] at h
        cases h
      · rw [braces_other h1 h2 h3] at h
        exact Or.inr (Or.inr ⟨h1, h2, h3, (Option.some.inj h).symm⟩)

theorem brackets_open {n : Nat} {c : Char} (h : c = '(' ∨ c = '[') :
    brackets n c = some (n + 1) :=
  if_pos h

theorem brackets_close {n : Nat} {c : Char} (h : c = ')' ∨ c = ']') :
    brackets n c = some (n - 1) := by
  rcases h with rfl | rfl <;> rfl

theorem brackets_other {n : Nat} {c : Char} (h1 : ¬(c = '(' ∨ c = '['))
    (h2 : ¬(c = ')' ∨ c = ']')) (h3 : ¬(c = ',' ∧ n = 0)) : brackets n c = some n := by
  show (if c = '(' ∨ c = '[' then some (n + 1)
    else if c = ')' ∨ c = ']' then some (n - 1)
    else if c = ',' ∧ n = 0 then none else some n) = some n
  rw [if_neg h1, if_neg h2, if_neg h3]

/-- What is a cut for the brackets. -/
theorem brackets_eq_none_iff {n : Nat} {c : Char} : brackets n c = none ↔ c = ',' ∧ n = 0 := by
  by_cases h1 : c = '(' ∨ c = '['
  · rw [brackets_open h1]
    rcases h1 with rfl | rfl <;> simp
  · by_cases h2 : c = ')' ∨ c = ']'
    · rw [brackets_close h2]
      rcases h2 with rfl | rfl <;> simp
    · by_cases h3 : c = ',' ∧ n = 0
      · obtain ⟨rfl, rfl⟩ := h3
        exact iff_of_true rfl ⟨rfl, rfl⟩
      · rw [brackets_other h1 h2 h3]
        exact iff_of_false (Option.some_ne_none n) h3

/-- **What a character does to the bracket level**, case by case. -/
theorem brackets_cases {n l : Nat} {c : Char} (h : brackets n c = some l) :
    ((c = '(' ∨ c = '[') ∧ l = n + 1) ∨ ((c = ')' ∨ c = ']') ∧ l = n - 1) ∨
      (¬(c = '(' ∨ c = '[') ∧ ¬(c = ')' ∨ c = ']') ∧ ¬(c = ',' ∧ n = 0) ∧ l = n) := by
  by_cases h1 : c = '(' ∨ c = '['
  · rw [brackets_open h1] at h
    exact Or.inl ⟨h1, (Option.some.inj h).symm⟩
  · by_cases h2 : c = ')' ∨ c = ']'
    · rw [brackets_close h2] at h
      exact Or.inr (Or.inl ⟨h2, (Option.some.inj h).symm⟩)
    · by_cases h3 : c = ',' ∧ n = 0
      · rw [brackets_eq_none_iff.mpr h3] at h
        cases h
      · rw [brackets_other h1 h2 h3] at h
        exact Or.inr (Or.inr ⟨h1, h2, h3, (Option.some.inj h).symm⟩)

theorem skips_braces_iff {c : Char} : Skips braces c ↔ c ≠ '{' ∧ c ≠ '}' ∧ c ≠ ';' := by
  constructor
  · intro h
    have h0 := h 0
    refine ⟨?_, ?_, ?_⟩ <;> rintro rfl <;> exact absurd h0 (by decide)
  · rintro ⟨h1, h2, h3⟩ n
    exact braces_other h1 h2 fun h => h3 h.1

theorem skips_brackets_of {c : Char}
    (h : c ≠ '(' ∧ c ≠ '[' ∧ c ≠ ')' ∧ c ≠ ']' ∧ c ≠ ',') : Skips brackets c := by
  obtain ⟨h1, h2, h3, h4, h5⟩ := h
  intro n
  exact brackets_other (fun h => h.elim h1 h2) (fun h => h.elim h3 h4) fun h => h5 h.1

/-- A counter that passes over white space. -/
def SkipsBlanks (k : Counter) : Prop :=
  ∀ c, isBlank c = true → Skips k c

theorem skipsBlanks_braces : SkipsBlanks braces := by
  intro c hc
  refine skips_braces_iff.mpr ⟨?_, ?_, ?_⟩ <;> rintro rfl <;> exact absurd hc (by decide)

theorem skipsBlanks_brackets : SkipsBlanks brackets := by
  intro c hc
  refine skips_brackets_of ⟨?_, ?_, ?_, ?_, ?_⟩ <;> rintro rfl <;> exact absurd hc (by decide)

theorem levelAfter_allBlank {k : Counter} (hk : SkipsBlanks k) {b : List Char} (hb : AllBlank b)
    (q : Quoting) (n : Nat) : levelAfter k q n b = some n :=
  levelAfter_of_skips (fun c hc => hk c (hb c hc)) q n

/-- Once a brace is open, only a cut closes the last one. -/
theorem one_le_levelAfter {q : Quoting} {n m : Nat} {t : List Char} (hn : 1 ≤ n)
    (h : levelAfter braces q n t = some m) : 1 ≤ m := by
  induction t generalizing q n with
  | nil =>
      obtain rfl : n = m := Option.some.inj h
      exact hn
  | cons c t ih =>
      obtain ⟨l, hc, h⟩ := exists_levelNext h
      refine ih ?_ h
      rcases levelNext_eq_some hc with ⟨-, rfl⟩ | ⟨-, hk⟩
      · exact hn
      · rcases braces_cases hk with ⟨-, rfl⟩ | ⟨-, hl, rfl⟩ | ⟨-, -, -, rfl⟩ <;> omega

/-- A text that ends with no brace open opens none. -/
theorem levelAfter_zero_of_append {q : Quoting} {a b : List Char}
    (h : levelAfter braces q 0 (a ++ b) = some 0) :
    levelAfter braces q 0 a = some 0 ∧ levelAfter braces (q.after a) 0 b = some 0 := by
  obtain ⟨l, hl, hb⟩ := exists_levelAfter_of_append h
  cases l with
  | zero => exact ⟨hl, hb⟩
  | succ l =>
      have := one_le_levelAfter (Nat.succ_le_succ (Nat.zero_le l)) hb
      omega

/-- Where nothing is cut, segmentation counts the open braces. -/
theorem openAfter_of_levelAfter {q : Quoting} {n m : Nat} {t : List Char}
    (h : levelAfter braces q n t = some m) : openAfter '{' '}' q n t = m := by
  induction t generalizing q n with
  | nil => exact Option.some.inj h
  | cons c t ih =>
      obtain ⟨l, hc, h⟩ := exists_levelNext h
      have hl : openNext '{' '}' q n c = l := by
        rcases levelNext_eq_some hc with ⟨hq, rfl⟩ | ⟨rfl, hk⟩
        · exact if_pos hq
        · rcases braces_cases hk with ⟨rfl, rfl⟩ | ⟨rfl, -, rfl⟩ | ⟨h1, h2, -, rfl⟩
          · rfl
          · rfl
          · exact openNext_other h1 h2 _ _
      rw [openAfter, hl]
      exact ih h

/-- After a cut no brace is open. -/
theorem openAfter_cut {u : List Char} {n : Nat} {c : Char} (hu : Quoting.code.after u = .code)
    (h : levelAfter braces .code 0 u = some n) (hc : braces n c = none) (rest : List Char) :
    openAfter '{' '}' .code 0 (u ++ c :: rest) = openAfter '{' '}' .code 0 rest := by
  rw [openAfter_append, hu, openAfter_of_levelAfter h]
  rcases braces_eq_none_iff.mp hc with ⟨rfl, hn⟩ | ⟨rfl, rfl⟩
  · show openAfter '{' '}' .code (n - 1) rest = _
    rw [Nat.sub_eq_zero_of_le hn]
  · rfl

/-! ## Segments -/

/-- The piece that a cutting character ends. -/
def pieceAt (c : Char) (t : List Char) : Segment :=
  if c = '}' then .block t else .statement t

@[simp] theorem text_pieceAt (c : Char) (t : List Char) : (pieceAt c t).text = t := by
  rw [pieceAt]
  split <;> rfl

@[simp] theorem isClosed_pieceAt (c : Char) (t : List Char) : (pieceAt c t).isClosed = true := by
  rw [pieceAt]
  split <;> rfl

/-- The piece that is left when the text ends: none when it is blank. -/
def lastPiece (depth : Nat) (t : List Char) : List Segment :=
  if t.all isBlank then []
  else if 0 < depth then [.unterminated t]
  else [.tail t]

private theorem segmentsFrom_cons (q : Quoting) (n : Nat) (read : List Char) (c : Char)
    (cs : List Char) :
    segmentsFrom q n read (c :: cs) =
      if q ≠ .code then segmentsFrom (q.next c) n (c :: read) cs
      else if c = '{' then segmentsFrom (q.next c) (n + 1) (c :: read) cs
      else if c = '}' then
        if 1 < n then segmentsFrom (q.next c) (n - 1) (c :: read) cs
        else .block (c :: read).reverse :: segmentsFrom (q.next c) 0 [] cs
      else if c = ';' && n = 0 then
        .statement (c :: read).reverse :: segmentsFrom (q.next c) 0 [] cs
      else segmentsFrom (q.next c) n (c :: read) cs := rfl

/-- A character that is no cut joins the piece being read. -/
theorem segmentsFrom_step {q : Quoting} {n m : Nat} {c : Char}
    (h : levelNext braces q n c = some m) (read cs : List Char) :
    segmentsFrom q n read (c :: cs) = segmentsFrom (q.next c) m (c :: read) cs := by
  rw [segmentsFrom_cons]
  rcases levelNext_eq_some h with ⟨hq, rfl⟩ | ⟨rfl, hk⟩
  · rw [if_pos hq]
  · rw [if_neg (fun hne => hne rfl)]
    rcases braces_cases hk with ⟨rfl, rfl⟩ | ⟨rfl, hn, rfl⟩ | ⟨h1, h2, h3, rfl⟩
    · rfl
    · rw [if_neg (by decide), if_pos rfl, if_pos hn]
    · rw [if_neg h1, if_neg h2, if_neg (by simpa using h3)]

/-- A cut ends the piece being read. -/
theorem segmentsFrom_cut {n : Nat} {c : Char} (h : braces n c = none) (read cs : List Char) :
    segmentsFrom .code n read (c :: cs) =
      pieceAt c (c :: read).reverse :: segmentsFrom .code 0 [] cs := by
  rw [segmentsFrom_cons, if_neg (fun hne => hne rfl)]
  rcases braces_eq_none_iff.mp h with ⟨rfl, hn⟩ | ⟨rfl, rfl⟩
  · rw [if_neg (by decide), if_pos rfl, if_neg (by omega)]
    rfl
  · rfl

/-- A text without a cut joins the piece being read. -/
theorem segmentsFrom_append {q : Quoting} {n m : Nat} {t : List Char}
    (h : levelAfter braces q n t = some m) (read rest : List Char) :
    segmentsFrom q n read (t ++ rest) = segmentsFrom (q.after t) m (t.reverse ++ read) rest := by
  induction t generalizing q n read with
  | nil =>
      obtain rfl : n = m := Option.some.inj h
      rfl
  | cons c t ih =>
      obtain ⟨l, hc, h⟩ := exists_levelNext h
      rw [List.cons_append, segmentsFrom_step hc, ih h, List.reverse_cons, List.append_assoc]
      rfl

/-- **Segments of a text without a cut**: the text itself. -/
theorem segments_of_uncut {t : List Char} {n : Nat} (h : levelAfter braces .code 0 t = some n) :
    segments t = lastPiece n t := by
  have happ := segmentsFrom_append h [] []
  rw [List.append_nil, List.append_nil] at happ
  show segmentsFrom .code 0 [] t = lastPiece n t
  rw [happ]
  show lastPiece n t.reverse.reverse = lastPiece n t
  rw [List.reverse_reverse]

/-- **Segments of a text with a cut**: the piece up to the cut, and the
    segments of what follows. -/
theorem segments_of_cut {u : List Char} {n : Nat} {c : Char} (hu : Quoting.code.after u = .code)
    (h : levelAfter braces .code 0 u = some n) (hc : braces n c = none) (rest : List Char) :
    segments (u ++ c :: rest) = pieceAt c (u ++ [c]) :: segments rest := by
  show segmentsFrom .code 0 [] (u ++ c :: rest) = _ :: segmentsFrom .code 0 [] rest
  rw [segmentsFrom_append h, hu, segmentsFrom_cut hc, List.append_nil, List.reverse_cons,
    List.reverse_reverse]

/-! ## Members of selector lists -/

private theorem membersFrom_cons (q : Quoting) (n : Nat) (read : List Char) (c : Char)
    (cs : List Char) :
    membersFrom q n read (c :: cs) =
      if q ≠ .code then membersFrom (q.next c) n (c :: read) cs
      else if c = '(' || c = '[' then membersFrom (q.next c) (n + 1) (c :: read) cs
      else if c = ')' || c = ']' then membersFrom (q.next c) (n - 1) (c :: read) cs
      else if c = ',' && n = 0 then read.reverse :: membersFrom (q.next c) 0 [] cs
      else membersFrom (q.next c) n (c :: read) cs := rfl

/-- A character that is no cut joins the member being read. -/
theorem membersFrom_step {q : Quoting} {n m : Nat} {c : Char}
    (h : levelNext brackets q n c = some m) (read cs : List Char) :
    membersFrom q n read (c :: cs) = membersFrom (q.next c) m (c :: read) cs := by
  rw [membersFrom_cons]
  rcases levelNext_eq_some h with ⟨hq, rfl⟩ | ⟨rfl, hk⟩
  · rw [if_pos hq]
  · rw [if_neg (fun hne => hne rfl)]
    rcases brackets_cases hk with ⟨h1, rfl⟩ | ⟨h2, rfl⟩ | ⟨h1, h2, h3, rfl⟩
    · rw [if_pos (by simpa using h1)]
    · rcases h2 with rfl | rfl <;> rfl
    · rw [if_neg (by simpa using h1), if_neg (by simpa using h2), if_neg (by simpa using h3)]

/-- A text without a cut joins the member being read. -/
theorem membersFrom_append {q : Quoting} {n m : Nat} {t : List Char}
    (h : levelAfter brackets q n t = some m) (read rest : List Char) :
    membersFrom q n read (t ++ rest) = membersFrom (q.after t) m (t.reverse ++ read) rest := by
  induction t generalizing q n read with
  | nil =>
      obtain rfl : n = m := Option.some.inj h
      rfl
  | cons c t ih =>
      obtain ⟨l, hc, h⟩ := exists_levelNext h
      rw [List.cons_append, membersFrom_step hc, ih h, List.reverse_cons, List.append_assoc]
      rfl

/-- **Members of a text without a cut**: the text itself. -/
theorem members_of_uncut {t : List Char} {n : Nat}
    (h : levelAfter brackets .code 0 t = some n) : selectorMembers t = [t] := by
  have happ := membersFrom_append h [] []
  rw [List.append_nil, List.append_nil] at happ
  show membersFrom .code 0 [] t = [t]
  rw [happ]
  show [t.reverse.reverse] = [t]
  rw [List.reverse_reverse]

/-- **Members of a text with a cut**: the text up to the comma, and the members
    of what follows. -/
theorem members_of_cut {m : List Char} (hm : Quoting.code.after m = .code)
    (h : levelAfter brackets .code 0 m = some 0) (rest : List Char) :
    selectorMembers (m ++ ',' :: rest) = m :: selectorMembers rest := by
  show membersFrom .code 0 [] (m ++ ',' :: rest) = m :: membersFrom .code 0 [] rest
  rw [membersFrom_append h, hm, List.append_nil]
  show m.reverse.reverse :: membersFrom .code 0 [] rest = m :: membersFrom .code 0 [] rest
  rw [List.reverse_reverse]

end PageLoom.Css
