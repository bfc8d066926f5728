import PageLoom.Css.Sheet
import PageLoom.Proofs.Css.Scan

/-!
# Reading a stylesheet — which selectors a page applies

    What a stylesheet does to a page depends on how it is read, not on how
    it was written.  The reader here goes over a text once: it skips
    strings, counts the braces of blocks without style rules, and gives the
    heading of every style rule, at top level and inside grouping at-rules
    at any depth (`ruleHeadings`).  A closing brace outside such blocks
    ends a group or stands astray; a new heading starts either way.

    The members of a heading are described by where they stand
    (`IsMember`): between top-level commas, with none inside.  The splitter
    finds exactly these (`isMember_iff_mem`).  A text is confined to a
    class when every member of every heading is (`Confined`).
-/

namespace PageLoom.Css

open Text

/-! ## The reader -/

/-- Where a reader stands. -/
structure Reading where
  quoting : Quoting := .code
  /-- braces open in a block that holds no style rules -/
  depth : Nat := 0
  /-- the heading as far as it is read -/
  heading : List Char := []

/-- Whether a heading belongs to an at-rule. -/
def isAtHeading (heading : List Char) : Bool :=
  (trim heading).head? == some '@'

/-- Whether the block after a heading holds style rules. -/
def opensGroup (heading : List Char) : Bool :=
  isAtHeading heading && isGrouping (trim heading)

namespace Reading

/-- A character between blocks. -/
def nextOutside (r : Reading) (c : Char) : Reading :=
  if r.quoting ≠ .code then ⟨r.quoting.next c, 0, r.heading ++ [c]⟩
  else if c = '{' then ⟨.code, if opensGroup r.heading then 0 else 1, []⟩
  else if c = '}' ∨ c = ';' then ⟨.code, 0, []⟩
  else ⟨r.quoting.next c, 0, r.heading ++ [c]⟩

/-- A character inside a block without style rules. -/
def nextInside (r : Reading) (c : Char) : Reading :=
  if r.quoting ≠ .code then ⟨r.quoting.next c, r.depth, []⟩
  else if c = '{' then ⟨.code, r.depth + 1, []⟩
  else if c = '}' then ⟨.code, r.depth - 1, []⟩
  else ⟨r.quoting.next c, r.depth, []⟩

/-- Where the reader stands after a character. -/
def next (r : Reading) (c : Char) : Reading :=
  if r.depth = 0 then r.nextOutside c else r.nextInside c

/-- Where the reader stands after a text. -/
def after (r : Reading) (t : List Char) : Reading :=
  t.foldl next r

/-- The heading of the style rule that a character opens. -/
def opened (r : Reading) (c : Char) : List (List Char) :=
  if r.quoting = .code ∧ r.depth = 0 ∧ c = '{' ∧ isAtHeading r.heading = false then [r.heading]
  else []

end Reading

/-- **The headings of the style rules** that a reader meets in a text. -/
def ruleHeadings : Reading → List Char → List (List Char)
  | _, [] => []
  | r, c :: t => r.opened c ++ ruleHeadings (r.next c) t

/-! ## Members -/

/-- The bracket level after a text, strings skipped. -/
def bracketLevel : Quoting → Nat → List Char → Nat
  | _, n, [] => n
  | q, n, c :: t =>
      bracketLevel (q.next c)
        (if q ≠ .code then n
        else if c = '(' ∨ c = '[' then n + 1
        else if c = ')' ∨ c = ']' then n - 1
        else n) t

/-- Whether what follows a text stands outside strings, parentheses and
    brackets. -/
def TopLevel (before : List Char) : Prop :=
  Quoting.code.after before = .code ∧ bracketLevel .code 0 before = 0

/-- **A member of a selector list**: a stretch between top-level commas, or
    between one and an end of the list, without a top-level comma inside. -/
structure IsMemberAt (list before member rest : List Char) : Prop where
  whole : list = before ++ member ++ rest
  starts : before = [] ∨ ∃ a, before = a ++ [','] ∧ TopLevel a
  ends : rest = [] ∨ ∃ b, rest = ',' :: b ∧ TopLevel (before ++ member)
  inner : ∀ x y, member = x ++ ',' :: y → ¬TopLevel (before ++ x)

/-- Whether a text is a member of a selector list. -/
def IsMember (list member : List Char) : Prop :=
  ∃ before rest, IsMemberAt list before member rest

/-- Whether a member applies inside a class only, or not to elements at all:
    it starts with the class, or names an at-rule or a keyframe. -/
def MemberConfined (cls member : List Char) : Prop :=
  ('.' :: cls) <+: member ∨ member.head? = some '@' ∨ '%' ∈ member

/-- **Confinement**: every member of every style rule that a page reads in the
    text is confined to the class. -/
def Confined (cls text : List Char) : Prop :=
  ∀ heading ∈ ruleHeadings {} text, ∀ member, IsMember heading member →
    MemberConfined cls (trim member)

/-! ## The reader, step by step -/

namespace Reading

theorem next_outside_string {q : Quoting} (hq : q ≠ .code) (h : List Char) (c : Char) :
    next ⟨q, 0, h⟩ c = ⟨q.next c, 0, h ++ [c]⟩ :=
  if_pos hq

theorem next_outside_open (h : List Char) :
    next ⟨.code, 0, h⟩ '{' = ⟨.code, if opensGroup h then 0 else 1, []⟩ := rfl

theorem next_outside_cut {c : Char} (hc : c = '}' ∨ c = ';') (h : List Char) :
    next ⟨.code, 0, h⟩ c = ⟨.code, 0, []⟩ := by
  rcases hc with rfl | rfl <;> rfl

theorem next_outside_other {c : Char} (h1 : c ≠ '{') (h2 : ¬(c = '}' ∨ c = ';'))
    (h : List Char) : next ⟨.code, 0, h⟩ c = ⟨Quoting.code.next c, 0, h ++ [c]⟩ := by
  show (if Quoting.code ≠ .code then (⟨Quoting.code.next c, 0, h ++ [c]⟩ : Reading)
    else if c = '{' then ⟨.code, if opensGroup h then 0 else 1, []⟩
    else if c = '}' ∨ c = ';' then ⟨.code, 0, []⟩
    else ⟨Quoting.code.next c, 0, h ++ [c]⟩) = _
  rw [if_neg (fun hne => hne rfl), if_neg h1, if_neg h2]

theorem next_inside_string {q : Quoting} (hq : q ≠ .code) (d : Nat) (h : List Char) (c : Char) :
    next ⟨q, d + 1, h⟩ c = ⟨q.next c, d + 1, []⟩ :=
  if_pos hq

theorem next_inside_open (d : Nat) (h : List Char) :
    next ⟨.code, d + 1, h⟩ '{' = ⟨.code, d + 2, []⟩ := rfl

theorem next_inside_close (d : Nat) (h : List Char) :
    next ⟨.code, d + 1, h⟩ '}' = ⟨.code, d, []⟩ := rfl

theorem next_inside_other {c : Char} (h1 : c ≠ '{') (h2 : c ≠ '}') (d : Nat) (h : List Char) :
    next ⟨.code, d + 1, h⟩ c = ⟨Quoting.code.next c, d + 1, []⟩ := by
  show (if Quoting.code ≠ .code then (⟨Quoting.code.next c, d + 1, []⟩ : Reading)
    else if c = '{' then ⟨.code, d + 2, []⟩
    else if c = '}' then ⟨.code, d, []⟩
    else ⟨Quoting.code.next c, d + 1, []⟩) = _
  rw [if_neg (fun hne => hne rfl), if_neg h1, if_neg h2]

theorem after_append (r : Reading) (a b : List Char) : r.after (a ++ b) = (r.after a).after b :=
  List.foldl_append

theorem after_cons (r : Reading) (c : Char) (t : List Char) :
    r.after (c :: t) = (r.next c).after t := rfl

end Reading

theorem ruleHeadings_append (r : Reading) (a b : List Char) :
    ruleHeadings r (a ++ b) = ruleHeadings r a ++ ruleHeadings (r.after a) b := by
  induction a generalizing r with
  | nil => rfl
  | cons c a ih =>
      show r.opened c ++ ruleHeadings (r.next c) (a ++ b)
        = r.opened c ++ ruleHeadings (r.next c) a ++ ruleHeadings ((r.next c).after a) b
      rw [ih, List.append_assoc]

/-- Only an opening brace opens a rule. -/
theorem ruleHeadings_of_no_brace {t : List Char} (h : '{' ∉ t) (r : Reading) :
    ruleHeadings r t = [] := by
  induction t generalizing r with
  | nil => rfl
  | cons c t ih =>
      rw [List.mem_cons, not_or] at h
      have hopen : r.opened c = [] := if_neg fun hc => h.1 hc.2.2.1.symm
      show r.opened c ++ ruleHeadings (r.next c) t = []
      rw [hopen, ih h.2]
      rfl

/-! ## Members are what the splitter finds -/

theorem bracketLevel_append (q : Quoting) (n : Nat) (a b : List Char) :
    bracketLevel q n (a ++ b) = bracketLevel (q.after a) (bracketLevel q n a) b := by
  induction a generalizing q n with
  | nil => rfl
  | cons c a ih => exact ih (q.next c) _

/-- Where nothing is cut, the splitter's level is the bracket level. -/
theorem bracketLevel_of_levelAfter {q : Quoting} {n m : Nat} {t : List Char}
    (h : levelAfter brackets q n t = some m) : bracketLevel q n t = m := by
  induction t generalizing q n with
  | nil => exact Option.some.inj h
  | cons c t ih =>
      obtain ⟨l, hc, h⟩ := exists_levelNext h
      have hl : (if q ≠ .code then n
          else if c = '(' ∨ c = '[' then n + 1
          else if c = ')' ∨ c = ']' then n - 1
          else n) = l := by
        rcases levelNext_eq_some hc with ⟨hq, rfl⟩ | ⟨rfl, hk⟩
        · rw [if_pos hq]
        · rw [if_neg (fun hne => hne rfl)]
          rcases brackets_cases hk with ⟨h1, rfl⟩ | ⟨h2, rfl⟩ | ⟨h1, h2, -, rfl⟩
          · rw [if_pos h1]
          · rcases h2 with rfl | rfl <;> rfl
          · rw [if_neg h1, if_neg h2]
      show bracketLevel (q.next c) _ t = m
      rw [hl]
      exact ih h

/-- A text has no cut exactly when no comma of it is at top level. -/
theorem levelAfter_isSome_iff {t : List Char} :
    (∃ n, levelAfter brackets .code 0 t = some n) ↔
      ∀ x y, t = x ++ ',' :: y → ¬TopLevel x := by
  constructor
  · rintro ⟨n, hn⟩ x y rfl ⟨hx, hlevel⟩
    obtain ⟨l, hl, hrest⟩ := exists_levelAfter_of_append hn
    rw [bracketLevel_of_levelAfter hl] at hlevel
    subst hlevel
    rw [hx] at hrest
    cases hrest
  · intro h
    cases hn : levelAfter brackets .code 0 t with
    | some n => exact ⟨n, rfl⟩
    | none =>
        exfalso
        obtain ⟨u, c, rest, m, rfl, hu, hm, hcut⟩ := exists_cut hn
        obtain ⟨rfl, rfl⟩ := brackets_eq_none_iff.mp hcut
        exact h u rest rfl ⟨hu, bracketLevel_of_levelAfter hm⟩

/-- After a top-level comma everything starts anew. -/
theorem topLevel_cut {u : List Char} (hu : TopLevel u) (x : List Char) :
    TopLevel (u ++ ',' :: x) ↔ TopLevel x := by
  have hq : Quoting.code.after (u ++ ',' :: x) = Quoting.code.after x := by
    rw [Quoting.after_append, hu.1]
    rfl
  have hl : bracketLevel .code 0 (u ++ ',' :: x) = bracketLevel .code 0 x := by
    rw [bracketLevel_append, hu.1, hu.2]
    rfl
  rw [TopLevel, TopLevel, hq, hl]

/-- A top-level comma after a text without one is the first or a later one. -/
theorem comma_cases {u tail a z : List Char} (huncut : ∀ x y, u = x ++ ',' :: y → ¬TopLevel x)
    (ha : TopLevel a) (h : u ++ ',' :: tail = a ++ ',' :: z) :
    (a = u ∧ z = tail) ∨ ∃ x, a = u ++ ',' :: x ∧ tail = x ++ ',' :: z := by
  rcases List.append_eq_append_iff.mp h with ⟨x, hx, hy⟩ | ⟨x, hx, hy⟩
  · cases x with
    | nil => exact Or.inl ⟨by rw [hx, List.append_nil], (List.cons.inj hy).2.symm⟩
    | cons d x =>
        obtain ⟨rfl, htail⟩ := List.cons.inj hy
        exact Or.inr ⟨x, hx, htail⟩
  · cases x with
    | nil => exact Or.inl ⟨by rw [hx, List.append_nil], (List.cons.inj hy).2⟩
    | cons d x =>
        obtain ⟨rfl, -⟩ := List.cons.inj hy
        exact absurd ha (huncut a x hx)

/-- Members after a top-level comma are members of what follows it. -/
theorem isMemberAt_cut {u tail before member rest : List Char} (hu : TopLevel u) :
    IsMemberAt (u ++ ',' :: tail) (u ++ ',' :: before) member rest ↔
      IsMemberAt tail before member rest := by
  -- a comma at the top leaves scan and brackets where they started
  have hshift : ∀ x, TopLevel (u ++ ',' :: before ++ x) ↔ TopLevel (before ++ x) := by
    intro x
    rw [List.append_assoc, List.cons_append]
    exact topLevel_cut hu (before ++ x)
  constructor
  · intro h
    refine ⟨?_, ?_, ?_, fun x y hxy ht => h.inner x y hxy ((hshift x).mpr ht)⟩
    · have hw := h.whole
      rw [List.append_assoc, List.append_assoc, List.cons_append] at hw
      rw [List.append_assoc]
      exact (List.cons.inj (List.append_cancel_left hw)).2
    · rcases h.starts with hnil | ⟨a, ha, ht⟩
      · exact absurd hnil (by simp)
      · rcases List.eq_nil_or_concat before with rfl | ⟨b, d, rfl⟩
        · exact Or.inl rfl
        · rw [List.concat_eq_append] at ha ⊢
          rw [← List.cons_append, ← List.append_assoc] at ha
          obtain ⟨rfl, hd⟩ := List.append_inj' ha rfl
          exact Or.inr ⟨b, by rw [hd], (topLevel_cut hu b).mp ht⟩
    · refine h.ends.imp_right ?_
      rintro ⟨b, hb, ht⟩
      exact ⟨b, hb, (hshift member).mp ht⟩
  · intro h
    refine ⟨?_, ?_, ?_, fun x y hxy ht => h.inner x y hxy ((hshift x).mp ht)⟩
    · rw [h.whole]
      simp only [List.append_assoc, List.cons_append]
    · rcases h.starts with rfl | ⟨a, rfl, ha⟩
      · exact Or.inr ⟨u, rfl, hu⟩
      · refine Or.inr ⟨u ++ ',' :: a, ?_, (topLevel_cut hu a).mpr ha⟩
        rw [List.append_assoc, List.cons_append]
    · refine h.ends.imp_right ?_
      rintro ⟨b, hb, ht⟩
      exact ⟨b, hb, (hshift member).mpr ht⟩

/-- The members of a text without a cut. -/
private theorem isMember_of_uncut {list member : List Char}
    (huncut : ∀ x y, list = x ++ ',' :: y → ¬TopLevel x) :
    IsMember list member ↔ member = list := by
  constructor
  · rintro ⟨before, rest, h⟩
    have hbefore : before = [] := by
      rcases h.starts with hnil | ⟨a, rfl, ha⟩
      · exact hnil
      · refine absurd ha (huncut a (member ++ rest) ?_)
        rw [h.whole, List.append_assoc, List.append_assoc, List.singleton_append]
    have hrest : rest = [] := by
      rcases h.ends with hnil | ⟨b, rfl, hb⟩
      · exact hnil
      · exact absurd hb (huncut (before ++ member) b h.whole)
    rw [h.whole, hbefore, hrest, List.nil_append, List.append_nil]
  · rintro rfl
    refine ⟨[], [], ?_, Or.inl rfl, Or.inl rfl, huncut⟩
    rw [List.nil_append, List.append_nil]

/-- The members of a text whose first cut is known. -/
private theorem isMember_of_cut {u tail member : List Char} (hu : TopLevel u)
    (huncut : ∀ x y, u = x ++ ',' :: y → ¬TopLevel x) :
    IsMember (u ++ ',' :: tail) member ↔ member = u ∨ IsMember tail member := by
  constructor
  · rintro ⟨before, rest, h⟩
    rcases h.starts with rfl | ⟨a, rfl, ha⟩
    · -- the first member is the text before the first cut
      left
      rcases h.ends with rfl | ⟨b, rfl, hb⟩
      · refine absurd hu (h.inner u tail ?_)
        rw [h.whole, List.nil_append, List.append_nil]
      · rcases comma_cases huncut hb h.whole with ⟨rfl, -⟩ | ⟨x, hx, -⟩
        · rfl
        · exact absurd hu (h.inner u x hx)
    · -- a later one is a member of what follows the cut
      right
      have hwhole : u ++ ',' :: tail = a ++ ',' :: (member ++ rest) := by
        rw [h.whole, List.append_assoc, List.append_assoc, List.singleton_append]
      rcases comma_cases huncut ha hwhole with ⟨rfl, -⟩ | ⟨x, rfl, -⟩
      · exact ⟨[], rest, (isMemberAt_cut hu).mp h⟩
      · rw [List.append_assoc, List.cons_append] at h
        exact ⟨x ++ [','], rest, (isMemberAt_cut hu).mp h⟩
  · rintro (rfl | ⟨before, rest, h⟩)
    · exact ⟨[], ',' :: tail, List.nil_append _ ▸ rfl, Or.inl rfl, Or.inr ⟨tail, rfl, hu⟩, huncut⟩
    · exact ⟨u ++ ',' :: before, rest, (isMemberAt_cut hu).mpr h⟩

/-- **The splitter is exact**: it gives the members of a list and nothing
    else. -/
theorem isMember_iff_mem {list member : List Char} :
    IsMember list member ↔ member ∈ selectorMembers list := by
  induction hlen : list.length using Nat.strongRecOn generalizing list with
  | ind len ih =>
      subst hlen
      cases hn : levelAfter brackets .code 0 list with
      | some n =>
          rw [members_of_uncut hn, List.mem_singleton]
          exact isMember_of_uncut (levelAfter_isSome_iff.mp ⟨n, hn⟩)
      | none =>
          obtain ⟨u, c, tail, m, rfl, hu, hm, hcut⟩ := exists_cut hn
          obtain ⟨rfl, rfl⟩ := brackets_eq_none_iff.mp hcut
          have hshorter : tail.length < (u ++ ',' :: tail).length := by
            simp only [List.length_append, List.length_cons]
            omega
          rw [members_of_cut hu hm, List.mem_cons, ← ih tail.length hshorter rfl]
          exact isMember_of_cut ⟨hu, bracketLevel_of_levelAfter hm⟩
            (levelAfter_isSome_iff.mp ⟨0, hm⟩)

end PageLoom.Css
