import PageLoom.Proofs.Css.ScopedRule

/-!
# Blocks — what a piece is read as

    Reading cuts a piece at its first brace, strings not skipped, while a scan
    skips them.  Both agree on where a block stands in the piece (`HasBlock`),
    and if the text before it closes its strings, the block is a whole text of
    its own (`HasBlock.whole`).  What a piece is read as is said once, for
    pieces that end where they should (`ClosedRead`) and for the last one
    (`OpenRead`); every fact about the items of a text is an induction on its
    pieces (`pieces_induction`).
-/

namespace PageLoom.Css

open Text

/-! ## Insides of blocks -/

/-- A text that a scan reads to its end outside strings, inside a block, and
    without leaving the block. -/
def Whole (t : List Char) : Prop :=
  Quoting.code.after t = .code ∧ levelAfter braces .code 1 t = some 1

/-- What follows a cut in the inside of a block is the inside of a block. -/
theorem Whole.rest {u rest : List Char} {n : Nat} {c : Char} (h : Whole (u ++ c :: rest))
    (hu : Quoting.code.after u = .code) (hn : levelAfter braces .code 0 u = some n)
    (hc : braces n c = none) : Whole rest := by
  obtain ⟨hcode, hlevel⟩ := h
  rw [Quoting.after_append, hu] at hcode
  rw [levelAfter_append_of_some (levelAfter_succ hn), hu] at hlevel
  rcases braces_eq_none_iff.mp hc with ⟨rfl, hle⟩ | ⟨rfl, rfl⟩
  · match n, hle with
    | 0, _ => cases hlevel
    | 1, _ => exact ⟨hcode, hlevel⟩
  · exact ⟨hcode, hlevel⟩

/-- A whole text without a cut leaves no block open. -/
theorem Whole.level_eq_zero {t : List Char} {n : Nat} (h : Whole t)
    (hlevel : levelAfter braces .code 0 t = some n) : n = 0 := by
  have hup := levelAfter_succ hlevel
  rw [h.2] at hup
  exact (Nat.succ.inj (Option.some.inj hup)).symm

section Block

variable {q : Quoting} {core : List Char} {n : Nat} (hq : q.Proper)

include hq

/-- Where a scan stands after an opening brace, white space does not move it. -/
theorem settled_brace : (q.next '{').Proper ∧ (q.next '{').settle = q.next '{' := by
  refine ⟨Quoting.proper_next hq '{', ?_⟩
  rw [Quoting.next_of_plain hq (by decide) (by decide), Quoting.settle_settle]

/-- Trimming a block keeps the level after its brace. -/
theorem levelAfter_brace_trim (h : levelAfter braces q 0 ('{' :: core) = some n) :
    levelAfter braces q 0 ('{' :: trim core) = some n := by
  obtain ⟨l, hl, hrest⟩ := exists_levelNext h
  rw [levelAfter_cons_of_some hl]
  exact levelAfter_trim skipsBlanks_braces (settled_brace hq).1 (settled_brace hq).2 hrest

/-- Trimming a block keeps it ending outside strings. -/
theorem code_after_brace_trim (h : q.after ('{' :: core) = .code) :
    q.after ('{' :: trim core) = .code :=
  code_after_trim (settled_brace hq).1 (settled_brace hq).2 h

/-- Trimming the start of a block moves no scan. -/
theorem scan_brace_trimStart (core : List Char) :
    levelAfter braces q 0 ('{' :: trimStart core) = levelAfter braces q 0 ('{' :: core) ∧
      q.after ('{' :: trimStart core) = q.after ('{' :: core) := by
  have hscan := fun n => scan_trimStart skipsBlanks_braces (settled_brace hq).1
    (settled_brace hq).2 n core
  refine ⟨?_, (hscan 0).2⟩
  show (levelNext braces q 0 '{').bind _ = (levelNext braces q 0 '{').bind _
  exact congrArg _ (funext fun l => (hscan l).1)

end Block

/-- Leaving out a closing brace at the end keeps a scan outside strings where it
    ended outside. -/
theorem code_after_withoutClose {q : Quoting} (hq : q.Proper) {t : List Char}
    (h : q.after t = .code) : q.after (withoutClose t) = .code := by
  rcases List.eq_nil_or_concat t with rfl | ⟨u, c, rfl⟩
  · exact h
  · rw [List.concat_eq_append] at h ⊢
    by_cases hc : c = '}'
    · subst hc
      rw [withoutClose_close]
      rw [Quoting.after_append] at h
      have hnext : (q.after u).next '}' = .code := h
      rw [Quoting.next_of_plain (Quoting.proper_after hq u) (by decide) (by decide)] at hnext
      exact Quoting.settle_eq_code_iff.mp hnext
    · have hkept : withoutClose (u ++ [c]) = u ++ [c] := by
        rw [withoutClose, List.getLast?_concat]
        exact if_neg fun heq => hc (Option.some.inj heq)
      rw [hkept]
      exact h

theorem exists_withoutClose (t : List Char) : ∃ z, t = withoutClose t ++ z := by
  by_cases h : t.getLast? = some '}'
  · have hdrop : withoutClose t = t.dropLast := if_pos h
    obtain ⟨u, rfl⟩ := List.getLast?_eq_some_iff.mp h
    exact ⟨['}'], by rw [withoutClose_close]⟩
  · have hkept : withoutClose t = t := if_neg h
    exact ⟨[], by rw [hkept, List.append_nil]⟩

/-! ## Blocks -/

/-- **The block of a text**: `before` it no brace stands, not even in a string, and
    `core` is the text after its brace. -/
structure HasBlock (t before core : List Char) (n : Nat) : Prop where
  split : t = before ++ '{' :: core
  first : '{' ∉ before
  flat : levelAfter braces .code 0 before = some 0
  level : levelAfter braces (Quoting.code.after before) 0 ('{' :: core) = some n

theorem exists_hasBlock {t : List Char} {n : Nat} (hlevel : levelAfter braces .code 0 t = some n)
    (hbrace : '{' ∈ t) : ∃ before core, HasBlock t before core n := by
  obtain ⟨before, core, rfl, hbefore⟩ := List.eq_append_cons_of_mem hbrace
  obtain ⟨l, hflat, hrest⟩ := exists_levelAfter_of_append hlevel
  obtain rfl : l = 0 := levelAfter_of_no_brace hbefore hflat
  exact ⟨before, core, rfl, hbefore, hflat, hrest⟩

namespace HasBlock

variable {t before core : List Char} {n : Nat} {c : Char} (h : HasBlock t before core n)

include h

theorem length_lt : core.length < t.length := by
  rw [h.split]
  simp only [List.length_append, List.length_cons]
  omega

theorem split_concat (c : Char) : t ++ [c] = before ++ '{' :: (core ++ [c]) := by
  rw [h.split, List.append_assoc, List.cons_append]

/-- The block ends outside strings where the text does. -/
theorem code (hcode : Quoting.code.after t = .code) :
    (Quoting.code.after before).after ('{' :: core) = .code := by
  rw [h.split, Quoting.after_append] at hcode
  exact hcode

/-- **A block whose brace stands outside strings** ends at a brace of its own, and
    its inside is whole. -/
theorem whole (hcode : Quoting.code.after t = .code) (hc : braces n c = none)
    (hbefore : Quoting.code.after before = .code) : c = '}' ∧ Whole core := by
  have hinside := h.code hcode
  have hlevel := h.level
  rw [hbefore] at hinside hlevel
  have hone : levelAfter braces .code 1 core = some n := hlevel
  have hn := one_le_levelAfter (Nat.le_refl 1) hone
  -- the brace is open, so no semicolon ends the piece
  rcases braces_eq_none_iff.mp hc with ⟨rfl, hle⟩ | ⟨-, rfl⟩
  · obtain rfl : n = 1 := Nat.le_antisymm hle hn
    exact ⟨rfl, hinside, hone⟩
  · exact absurd hn (by decide)

/-- **The heading of a grouping at-rule** that closes its strings keeps its name
    when it is trimmed. -/
theorem heading (hgroup : (t ++ [c]).head? = some '@' ∧ isGrouping (t ++ [c]) = true)
    (hheading : Quoting.code.after (trim before) = .code) :
    Quoting.code.after before = .code ∧ (trim before).head? = some '@' ∧
      levelAfter braces .code 0 (trim before) = some 0 ∧ isGrouping (trim before) = true := by
  have hbefore : Quoting.code.after before = .code := by
    rw [← Quoting.settle_eq_code_iff, ← settle_after_trim (q := .code) trivial rfl, hheading]
    rfl
  obtain ⟨hat, hname⟩ := hgroup
  have hflat := h.flat
  rw [h.split_concat] at hat hname
  generalize before = heading at *
  cases heading with
  | nil => exact absurd (Option.some.inj hat) (by decide)
  | cons d s =>
      obtain rfl : d = '@' := Option.some.inj hat
      have hopens : opensGroup ('@' :: s) = true := (opensGroup_append allBlank_nil s).trans
        ((isGrouping_stop (by decide) '@' s _).symm.trans hname)
      exact ⟨hbefore, head?_trim_append allBlank_nil (by decide) s,
        levelAfter_trim (q := .code) skipsBlanks_braces trivial rfl hflat,
        (Bool.and_eq_true_iff.mp hopens).2⟩

end HasBlock

/-! ## What a piece is read as -/

/-- **A piece that ends where it should**, at the cut `c`: with a block it is an
    at-rule or a style rule, without one a statement or nothing. -/
inductive ClosedRead (v : List Char) (n : Nat) (c : Char) : Option Item → Prop
  | nothing : ClosedRead v n c none
  | verbatim (hat : (v ++ [c]).head? = some '@')
      (hkind : '{' ∉ v ++ [c] ∨ isGrouping (v ++ [c]) = false) :
      ClosedRead v n c (some (.verbatim (v ++ [c])))
  | group {before core : List Char} (hblock : HasBlock v before core n)
      (hgroup : (v ++ [c]).head? = some '@' ∧ isGrouping (v ++ [c]) = true) :
      ClosedRead v n c (some (.group (trim before) (itemsOf (withoutClose (core ++ [c])))))
  | rule {before core : List Char} (hblock : HasBlock v before core n)
      (hat : (v ++ [c]).head? ≠ some '@') :
      ClosedRead v n c (some (.rule before (trim (withoutClose (core ++ [c])))))

theorem closedRead {v : List Char} {n : Nat} {c : Char}
    (hlevel : levelAfter braces .code 0 v = some n) (hc : braces n c = none) :
    ClosedRead v n c (readItem true (v ++ [c])) := by
  by_cases hbrace : '{' ∈ v
  · obtain ⟨before, core, hblock⟩ := exists_hasBlock hlevel hbrace
    have hread := readItem_of_brace hblock.first true (core ++ [c])
    rw [← hblock.split_concat] at hread
    rw [hread]
    by_cases hat : (v ++ [c]).head? = some '@'
    · rw [if_pos hat, if_neg (by decide)]
      cases hgroup : isGrouping (v ++ [c]) with
      | true => exact .group hblock ⟨hat, hgroup⟩
      | false => exact .verbatim hat (Or.inr hgroup)
    · rw [if_neg hat]
      exact .rule hblock hat
  · have hnone : '{' ∉ v ++ [c] := by
      rw [List.mem_append, List.mem_singleton, not_or]
      refine ⟨hbrace, ?_⟩
      rintro rfl
      cases hc
    rw [readItem_of_no_brace hnone]
    split
    · rename_i hat
      exact .verbatim hat (Or.inl hnone)
    · exact .nothing

/-- **The last piece**, which may be open: at-rules with a block are dropped. -/
inductive OpenRead (t : List Char) (n : Nat) : Option Item → Prop
  | nothing : OpenRead t n none
  | verbatim (hbrace : '{' ∉ t) : OpenRead t n (some (.verbatim t))
  | rule {before core : List Char} (hblock : HasBlock t before core n)
      (hat : t.head? ≠ some '@') : OpenRead t n (some (.rule before (trim (withoutClose core))))

theorem openRead {t : List Char} {n : Nat} (hlevel : levelAfter braces .code 0 t = some n) :
    OpenRead t n (readItem false t) := by
  by_cases hbrace : '{' ∈ t
  · obtain ⟨before, core, hblock⟩ := exists_hasBlock hlevel hbrace
    have hread := readItem_of_brace hblock.first false core
    rw [← hblock.split] at hread
    rw [hread]
    split
    · exact .nothing
    · rename_i hat
      exact .rule hblock hat
  · rw [readItem_of_no_brace hbrace]
    split
    · exact .verbatim hbrace
    · exact .nothing

/-- **Induction on pieces**: a text without a cut, or a closed piece, whose inside
    is shorter, and the text after it. -/
theorem pieces_induction {motive : List Char → Prop}
    (uncut : ∀ {t : List Char} {n : Nat}, levelAfter braces .code 0 t = some n → motive t)
    (cut : ∀ {u v rest : List Char} {n : Nat} {c : Char}, Quoting.code.after u = .code →
      levelAfter braces .code 0 u = some n → braces n c = none → trim (u ++ [c]) = v ++ [c] →
      Quoting.code.after v = .code → levelAfter braces .code 0 v = some n →
      (∀ s, s.length < v.length → motive s) → motive rest → motive (u ++ c :: rest))
    (t : List Char) : motive t := by
  induction hlen : t.length using Nat.strongRecOn generalizing t with
  | ind len ih =>
      subst hlen
      cases hlevel : levelAfter braces .code 0 t with
      | some n => exact uncut hlevel
      | none =>
          obtain ⟨u, c, rest, n, rfl, hu, hn, hc⟩ := exists_cut hlevel
          obtain ⟨v, htrim, hv, hnv, hvlen⟩ := exists_piece hu hn hc
          have hshorter : ∀ s : List Char, s.length < v.length ∨ s.length ≤ rest.length →
              s.length < (u ++ c :: rest).length := by
            intro s hs
            simp only [List.length_append, List.length_cons]
            omega
          exact cut hu hn hc htrim hv hnv
            (fun s hs => ih s.length (hshorter s (Or.inl hs)) s rfl)
            (ih rest.length (hshorter rest (Or.inr (Nat.le_refl _))) rest rfl)

end PageLoom.Css
