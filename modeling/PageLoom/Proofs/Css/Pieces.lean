import PageLoom.Proofs.Css.Members

/-!
# Pieces — what the reader makes of a text without a cut

    The reader follows the brace level: a text that opens no brace only
    lengthens the heading (`reading_flat`), a text inside a block adds no
    heading (`ruleHeadings_inside`), and in general the reader is never
    deeper than the level (`reading_within`), so that the cut which ends a
    piece brings it back to a new heading (`next_close`).  A piece with a
    brace has one heading, the text before its first brace outside strings
    (`ruleHeadings_of_opening`).
-/

namespace PageLoom.Css

open Text

/-! ## Levels -/

/-- A text without an opening brace opens none. -/
theorem levelAfter_of_no_brace {q : Quoting} {n : Nat} {t : List Char} (ht : '{' ∉ t)
    (h : levelAfter braces q 0 t = some n) : n = 0 := by
  induction t generalizing q with
  | nil => exact (Option.some.inj h).symm
  | cons c t ih =>
      rw [List.mem_cons, not_or] at ht
      obtain ⟨m, hc, h⟩ := exists_levelNext h
      obtain rfl : m = 0 := by
        rcases levelNext_eq_some hc with ⟨-, rfl⟩ | ⟨-, hk⟩
        · rfl
        · rcases braces_cases hk with ⟨rfl, -⟩ | ⟨-, hn, -⟩ | ⟨-, -, -, rfl⟩
          · exact absurd rfl ht.1
          · omega
          · rfl
      exact ih ht.2 h

/-- A text that leaves a brace open has a first one. -/
theorem exists_open {q : Quoting} {n : Nat} {t : List Char}
    (h : levelAfter braces q 0 t = some (n + 1)) :
    ∃ x y, t = x ++ '{' :: y ∧ q.after x = .code ∧ levelAfter braces q 0 x = some 0 ∧
      levelAfter braces .code 1 y = some (n + 1) := by
  induction t generalizing q with
  | nil => exact absurd (Option.some.inj h) (by omega)
  | cons c t ih =>
      obtain ⟨m, hc, hrest⟩ := exists_levelNext h
      have hcases : (q = .code ∧ c = '{') ∨ m = 0 := by
        rcases levelNext_eq_some hc with ⟨-, rfl⟩ | ⟨rfl, hk⟩
        · exact Or.inr rfl
        · rcases braces_cases hk with ⟨rfl, -⟩ | ⟨-, hn, -⟩ | ⟨-, -, -, rfl⟩
          · exact Or.inl ⟨rfl, rfl⟩
          · omega
          · exact Or.inr rfl
      rcases hcases with ⟨rfl, rfl⟩ | rfl
      · exact ⟨[], t, rfl, rfl, rfl, h⟩
      · obtain ⟨x, y, rfl, hx, hlevel, hy⟩ := ih hrest
        refine ⟨c :: x, y, rfl, hx, ?_, hy⟩
        rw [levelAfter_cons_of_some hc]
        exact hlevel

/-- One level more outside, one level more inside. -/
theorem levelAfter_succ {q : Quoting} {n m : Nat} {t : List Char}
    (h : levelAfter braces q n t = some m) : levelAfter braces q (n + 1) t = some (m + 1) := by
  induction t generalizing q n with
  | nil => exact congrArg (some <| · + 1) (Option.some.inj h)
  | cons c t ih =>
      obtain ⟨l, hc, h⟩ := exists_levelNext h
      have hstep : levelNext braces q (n + 1) c = some (l + 1) := by
        rcases levelNext_eq_some hc with ⟨hq, rfl⟩ | ⟨rfl, hk⟩
        · exact levelNext_of_ne hq _ _ _
        · rw [levelNext_code]
          rcases braces_cases hk with ⟨rfl, rfl⟩ | ⟨rfl, hn, rfl⟩ | ⟨h1, h2, -, rfl⟩
          · rfl
          · rw [braces_close (by omega)]
            exact congrArg some (by omega)
          · exact braces_other h1 h2 (by omega)
      rw [levelAfter_cons_of_some hstep]
      exact ih h

/-- The level after a brace depends on where the scan settles only. -/
theorem levelAfter_brace_congr (k : Counter) {q r : Quoting} (hq : q.Proper) (hr : r.Proper)
    (h : q.settle = r.settle) (n : Nat) (t : List Char) :
    levelAfter k q n ('{' :: t) = levelAfter k r n ('{' :: t) ∧
      q.after ('{' :: t) = r.after ('{' :: t) := by
  have hnext : q.next '{' = r.next '{' :=
    Quoting.next_eq_of_settle_eq hq hr h (by decide) (by decide)
  have hcode : q = .code ↔ r = .code := by
    rw [← Quoting.settle_eq_code_iff, h, Quoting.settle_eq_code_iff]
  have hlevel : levelNext k q n '{' = levelNext k r n '{' := by
    by_cases hc : q = .code
    · rw [hc, hcode.mp hc]
    · rw [levelNext_of_ne hc, levelNext_of_ne fun hrc => hc (hcode.mpr hrc)]
  constructor
  · rw [levelAfter, levelAfter, hlevel, hnext]
  · rw [Quoting.after_cons, Quoting.after_cons, hnext]

/-! ## The reader on a text without a cut -/

/-- A text that opens no brace lengthens the heading. -/
theorem reading_flat {q : Quoting} {t : List Char} (h : levelAfter braces q 0 t = some 0)
    (heading : List Char) :
    Reading.after ⟨q, 0, heading⟩ t = ⟨q.after t, 0, heading ++ t⟩ ∧
      ruleHeadings ⟨q, 0, heading⟩ t = [] := by
  induction t generalizing q heading with
  | nil => exact ⟨by rw [List.append_nil]; rfl, rfl⟩
  | cons c t ih =>
      obtain ⟨hone, hrest⟩ := levelAfter_zero_of_append (a := [c]) h
      obtain ⟨l, hc, hl⟩ := exists_levelNext hone
      obtain rfl : l = 0 := Option.some.inj hl
      -- at level zero a character that is no cut and opens nothing is kept
      have hnext : Reading.next ⟨q, 0, heading⟩ c = ⟨q.next c, 0, heading ++ [c]⟩ ∧
          Reading.opened ⟨q, 0, heading⟩ c = [] := by
        rcases levelNext_eq_some hc with ⟨hq, -⟩ | ⟨rfl, hk⟩
        · exact ⟨Reading.next_outside_string hq heading c, if_neg fun hop => hq hop.1⟩
        · rcases braces_cases hk with ⟨-, hl⟩ | ⟨-, hn, -⟩ | ⟨h1, h2, h3, -⟩
          · exact absurd hl (by omega)
          · omega
          · refine ⟨Reading.next_outside_other h1 ?_ heading, if_neg fun hop => h1 hop.2.2.1⟩
            exact fun hcut => hcut.elim h2 fun heq => h3 ⟨heq, rfl⟩
      obtain ⟨hafter, hrules⟩ := ih hrest (heading ++ [c])
      constructor
      · rw [Reading.after_cons, hnext.1]
        refine hafter.trans ?_
        rw [List.append_assoc]
        rfl
      · show Reading.opened ⟨q, 0, heading⟩ c ++ ruleHeadings (Reading.next ⟨q, 0, heading⟩ c) t = []
        rw [hnext.1, hnext.2]
        exact hrules

/-- A text that does not leave a block has no headings. -/
theorem ruleHeadings_inside {q : Quoting} {n m : Nat} {t : List Char} (hn : 1 ≤ n)
    (h : levelAfter braces q n t = some m) (heading : List Char) :
    ruleHeadings ⟨q, n, heading⟩ t = [] := by
  induction t generalizing q n heading with
  | nil => rfl
  | cons c t ih =>
      obtain ⟨l, hc, hrest⟩ := exists_levelNext h
      have hl : 1 ≤ l := one_le_levelAfter (t := [c]) hn (levelAfter_cons_of_some hc [])
      obtain ⟨d, hd⟩ : ∃ d, n = d + 1 := ⟨n - 1, by omega⟩
      subst hd
      have hnext : Reading.next ⟨q, d + 1, heading⟩ c = ⟨q.next c, l, []⟩ := by
        rcases levelNext_eq_some hc with ⟨hq, rfl⟩ | ⟨rfl, hk⟩
        · exact Reading.next_inside_string hq d heading c
        · rcases braces_cases hk with ⟨rfl, rfl⟩ | ⟨rfl, -, rfl⟩ | ⟨h1, h2, -, rfl⟩
          · exact Reading.next_inside_open d heading
          · exact Reading.next_inside_close _ heading
          · exact Reading.next_inside_other h1 h2 d heading
      have hopened : Reading.opened ⟨q, d + 1, heading⟩ c = [] :=
        if_neg fun hop => Nat.succ_ne_zero d hop.2.1
      show Reading.opened ⟨q, d + 1, heading⟩ c
        ++ ruleHeadings (Reading.next ⟨q, d + 1, heading⟩ c) t = []
      rw [hopened, hnext]
      exact ih hl hrest []

/-- The reader is never deeper than the level. -/
theorem reading_within {q : Quoting} {n m d : Nat} {t : List Char} (hd : d ≤ n)
    (h : levelAfter braces q n t = some m) (heading : List Char) :
    (Reading.after ⟨q, d, heading⟩ t).quoting = q.after t ∧
      (Reading.after ⟨q, d, heading⟩ t).depth ≤ m := by
  induction t generalizing q n d heading with
  | nil =>
      obtain rfl : n = m := Option.some.inj h
      exact ⟨rfl, hd⟩
  | cons c t ih =>
      obtain ⟨l, hc, h⟩ := exists_levelNext h
      -- the reader does not count the braces of grouping at-rules
      have hnext : ∃ e h', e ≤ l ∧ Reading.next ⟨q, d, heading⟩ c = ⟨q.next c, e, h'⟩ := by
        rcases levelNext_eq_some hc with ⟨hq, rfl⟩ | ⟨rfl, hk⟩
        · cases d with
          | zero => exact ⟨0, _, Nat.zero_le _, Reading.next_outside_string hq heading c⟩
          | succ d => exact ⟨d + 1, _, hd, Reading.next_inside_string hq d heading c⟩
        · rcases braces_cases hk with ⟨rfl, rfl⟩ | ⟨rfl, hn, rfl⟩ | ⟨h1, h2, h3, rfl⟩
          · cases d with
            | zero =>
                refine ⟨if opensGroup heading then 0 else 1, [], ?_, Reading.next_outside_open heading⟩
                split <;> omega
            | succ d => exact ⟨d + 2, [], by omega, Reading.next_inside_open d heading⟩
          · cases d with
            | zero => exact ⟨0, [], by omega, Reading.next_outside_cut (Or.inl rfl) heading⟩
            | succ d => exact ⟨d, [], by omega, Reading.next_inside_close d heading⟩
          · cases d with
            | zero =>
                by_cases hsemi : c = ';'
                · subst hsemi
                  exact ⟨0, [], Nat.zero_le _, Reading.next_outside_cut (Or.inr rfl) heading⟩
                · refine ⟨0, _, Nat.zero_le _, Reading.next_outside_other h1 ?_ heading⟩
                  exact fun hcut => hcut.elim h2 hsemi
            | succ d => exact ⟨d + 1, [], hd, Reading.next_inside_other h1 h2 d heading⟩
      obtain ⟨e, h', he, hstep⟩ := hnext
      rw [Reading.after_cons, hstep]
      exact ih he h h'

/-! ## Headings -/

/-- **A piece has one heading**, the text before its first brace.  Only the
    block of a grouping at-rule has headings of its own. -/
theorem ruleHeadings_of_opening {x y : List Char} {n : Nat} (hx : Quoting.code.after x = .code)
    (hlevel : levelAfter braces .code 0 x = some 0) (hy : levelAfter braces .code 1 y = some n)
    (h : List Char) :
    ruleHeadings ⟨.code, 0, h⟩ (x ++ '{' :: y) =
      if isAtHeading (h ++ x) then
        if opensGroup (h ++ x) then ruleHeadings ⟨.code, 0, []⟩ y else []
      else [h ++ x] := by
  obtain ⟨hafter, hrules⟩ := reading_flat hlevel h
  rw [ruleHeadings_append, hrules, hafter, hx, List.nil_append]
  show Reading.opened ⟨.code, 0, h ++ x⟩ '{'
    ++ ruleHeadings ⟨.code, if opensGroup (h ++ x) then 0 else 1, []⟩ y = _
  cases hat : isAtHeading (h ++ x) with
  | true =>
      have hopened : Reading.opened ⟨.code, 0, h ++ x⟩ '{' = [] := by
        refine if_neg fun hop => ?_
        rw [hop.2.2.2] at hat
        cases hat
      rw [hopened, List.nil_append]
      cases hgroup : opensGroup (h ++ x) with
      | true => rfl
      | false => exact ruleHeadings_inside (Nat.le_refl 1) hy []
  | false =>
      have hopened : Reading.opened ⟨.code, 0, h ++ x⟩ '{' = [h ++ x] :=
        if_pos ⟨rfl, rfl, rfl, hat⟩
      have hgroup : opensGroup (h ++ x) = false := by
        rw [opensGroup, hat]
        rfl
      rw [hopened, hgroup]
      show [h ++ x] ++ ruleHeadings ⟨.code, 1, []⟩ y = [h ++ x]
      rw [ruleHeadings_inside (Nat.le_refl 1) hy []]
      rfl

/-- The brace that ends a piece brings the reader back to a new heading. -/
theorem next_close {r : Reading} (hq : r.quoting = .code) (hd : r.depth ≤ 1) :
    r.next '}' = ⟨.code, 0, []⟩ := by
  obtain ⟨q, d, h⟩ := r
  obtain rfl : q = .code := hq
  match d, hd with
  | 0, _ => exact Reading.next_outside_cut (Or.inl rfl) h
  | 1, _ => exact Reading.next_inside_close 0 h

/-- A semicolon between blocks does so too. -/
theorem next_semicolon {r : Reading} (hq : r.quoting = .code) (hd : r.depth = 0) :
    r.next ';' = ⟨.code, 0, []⟩ := by
  obtain ⟨q, d, h⟩ := r
  obtain rfl : q = .code := hq
  obtain rfl : d = 0 := hd
  exact Reading.next_outside_cut (Or.inr rfl) h

end PageLoom.Css
