import PageLoom.Proofs.Content.Markup
import Mathlib.Data.List.Infix

/-!
# Origin — which characters of a filled markup come from values

    Every character of a filled markup comes from a literal or from the value
    of a token (`Markup.marked`).  Markup keeps clear of a text when no
    literal holds it and none holds a part of it beside a token
    (`Markup.KeepsClear`).  Wherever such a text then occurs in the filled
    markup, it comes from values throughout (`Markup.KeepsClear.from_values`),
    though it may run through several values that stand side by side.

    The proof follows the markup.  An occurrence cannot start in a literal:
    it would end there too, or reach the token after it.  So it starts in a
    value, and it cannot leave values: it would reach the next literal that is
    not empty, and end in it or pass through it to the next token.
-/

namespace PageLoom.Content

/-- Where a character of a filled markup comes from. -/
inductive Origin
  | literal
  | value
  deriving DecidableEq, Repr

/-- Characters of one origin. -/
def Origin.mark (origin : Origin) (cs : List Char) : List (Char × Origin) :=
  cs.map (·, origin)

theorem Origin.map_mark (origin : Origin) (cs : List Char) :
    (origin.mark cs).map Prod.fst = cs := by
  rw [mark, List.map_map]
  exact List.map_id cs

theorem Origin.eq_of_mark_eq {origin : Origin} {cs : List Char} {a b : List (Char × Origin)}
    (h : origin.mark cs = a ++ b) : cs = a.map Prod.fst ++ b.map Prod.fst := by
  rw [← List.map_append, ← h, map_mark]

theorem Origin.eq_of_mem_mark {origin : Origin} {cs : List Char} {x : Char × Origin}
    (h : x ∈ origin.mark cs) : x.2 = origin := by
  obtain ⟨c, -, rfl⟩ := List.mem_map.mp h
  rfl

namespace Markup

/-- **The filled markup**, each character with its origin. -/
def marked (m : Markup) (value : Token → List Char) : List (Char × Origin) :=
  m.parts.flatMap (fun part =>
    Origin.literal.mark part.1 ++ Origin.value.mark (value part.2)) ++ Origin.literal.mark m.last

/-- The literals of markup, in order. -/
def literals (m : Markup) : List (List Char) :=
  m.parts.map Prod.fst ++ [m.last]

/-- **Markup that keeps clear of a text**: no literal holds it or a part of it
    beside a token. -/
structure KeepsClear (m : Markup) (needle : List Char) : Prop where
  free : ∀ literal ∈ m.literals, ¬needle <:+: literal
  /-- no literal before a token ends with a start of the text -/
  before : ∀ part ∈ m.parts, ∀ s, s <:+ part.1 → s <+: needle → s = []
  /-- no literal after a token starts with an end of the text -/
  after : ∀ literal ∈ m.literals.tail, ∀ s, s <+: literal → s <:+ needle → s = []
  /-- no literal between two tokens is a part of the text -/
  between : ∀ part ∈ m.parts.tail, part.1 <:+: needle → part.1 = []

instance (m : Markup) (needle : List Char) : Decidable (m.KeepsClear needle) :=
  decidable_of_iff
    ((∀ literal ∈ m.literals, ¬needle <:+: literal) ∧
      (∀ part ∈ m.parts, ∀ s ∈ part.1.tails, s <+: needle → s = []) ∧
      (∀ literal ∈ m.literals.tail, ∀ s ∈ literal.inits, s <:+ needle → s = []) ∧
      ∀ part ∈ m.parts.tail, part.1 <:+: needle → part.1 = []) (by
    simp only [List.mem_tails, List.mem_inits]
    exact ⟨fun ⟨free, before, after, between⟩ => ⟨free, before, after, between⟩,
      fun ⟨free, before, after, between⟩ => ⟨free, before, after, between⟩⟩)

/-- Markup that keeps clear of a text even after a token. -/
structure FollowsClear (m : Markup) (needle : List Char) : Prop extends m.KeepsClear needle where
  after_all : ∀ literal ∈ m.literals, ∀ s, s <+: literal → s <:+ needle → s = []
  between_all : ∀ part ∈ m.parts, part.1 <:+: needle → part.1 = []

theorem marked_cons (literal : List Char) (t : Token) (parts : List (List Char × Token))
    (last : List Char) (value : Token → List Char) :
    marked ⟨(literal, t) :: parts, last⟩ value =
      Origin.literal.mark literal ++ (Origin.value.mark (value t) ++ marked ⟨parts, last⟩ value) := by
  rw [marked, List.flatMap_cons, List.append_assoc, List.append_assoc]
  rfl

theorem map_marked (m : Markup) (value : Token → List Char) :
    (m.marked value).map Prod.fst = m.filled value := by
  obtain ⟨parts, last⟩ := m
  induction parts with
  | nil => exact Origin.literal.map_mark last
  | cons part parts ih =>
      rw [marked_cons, filled_cons, List.map_append, List.map_append, ih, Origin.map_mark,
        Origin.map_mark]

/-- What follows the first token keeps clear even after it. -/
theorem KeepsClear.tail {needle literal last : List Char} {t : Token}
    {parts : List (List Char × Token)} (h : KeepsClear ⟨(literal, t) :: parts, last⟩ needle) :
    FollowsClear ⟨parts, last⟩ needle where
  free := fun l hl => h.free l (List.mem_cons_of_mem _ hl)
  before := fun part hpart => h.before part (List.mem_cons_of_mem _ hpart)
  after := fun l hl => h.after l (List.mem_of_mem_tail hl)
  between := fun part hpart => h.between part (List.mem_of_mem_tail hpart)
  after_all := h.after
  between_all := h.between

/-! ## Occurrences -/

variable {needle : List Char} {value : Token → List Char}

/-- An occurrence that goes on after a token does not end in a literal. -/
theorem FollowsClear.eq_nil {m : Markup} {literal : List Char}
    {inside rest more : List (Char × Origin)} (h : m.FollowsClear needle)
    (hmem : literal ∈ m.literals) (hneedle : (inside ++ rest).map Prod.fst = needle)
    (hliteral : Origin.literal.mark literal = rest ++ more) : rest = [] := by
  rw [List.map_append] at hneedle
  exact List.map_eq_nil_iff.mp (h.after_all literal hmem (rest.map Prod.fst)
    ⟨_, (Origin.eq_of_mark_eq hliteral).symm⟩ ⟨_, hneedle⟩)

/-- An occurrence that begins in values, with `inside`, and goes on after a
    token comes from values throughout. -/
theorem FollowsClear.from_values {parts : List (List Char × Token)} {last : List Char}
    {inside rest after : List (Char × Origin)} (h : FollowsClear ⟨parts, last⟩ needle)
    (hinside : ∀ x ∈ inside, x.2 = .value) (hneedle : (inside ++ rest).map Prod.fst = needle)
    (hcut : marked ⟨parts, last⟩ value = rest ++ after) : ∀ x ∈ inside ++ rest, x.2 = .value := by
  induction parts generalizing inside rest with
  | nil =>
      obtain rfl := h.eq_nil List.mem_cons_self hneedle hcut
      rw [List.append_nil]
      exact hinside
  | cons part parts ih =>
      obtain ⟨literal, t⟩ := part
      rw [marked_cons] at hcut
      rcases List.append_eq_append_iff.mp hcut with ⟨more, rfl, hmore⟩ | ⟨more, hliteral, -⟩
      · -- it could pass through the literal only if two values stand side by side
        have hpart : literal <:+: needle := by
          refine ⟨inside.map Prod.fst, more.map Prod.fst, ?_⟩
          rw [← hneedle, List.map_append, List.map_append, Origin.map_mark, List.append_assoc]
        obtain rfl : literal = [] := h.between_all _ List.mem_cons_self hpart
        have hvalue : ∀ x ∈ Origin.value.mark (value t), x.2 = .value := fun x =>
          Origin.eq_of_mem_mark
        rcases List.append_eq_append_iff.mp hmore with ⟨rest, rfl, hrest⟩ | ⟨_, hsplit, -⟩
        · have hjoin : ∀ x ∈ inside ++ Origin.value.mark (value t), x.2 = .value :=
            List.forall_mem_append.mpr ⟨hinside, hvalue⟩
          have hall := ih h.tail hjoin (by rw [List.append_assoc]; exact hneedle) hrest
          rw [List.append_assoc] at hall
          exact hall
        · rw [hsplit] at hvalue
          exact List.forall_mem_append.mpr ⟨hinside, (List.forall_mem_append.mp hvalue).1⟩
      · obtain rfl := h.eq_nil List.mem_cons_self hneedle hliteral
        rw [List.append_nil]
        exact hinside

/-- **An occurrence of a text that the markup keeps clear of** comes from values
    throughout. -/
theorem KeepsClear.from_values {parts : List (List Char × Token)} {last : List Char}
    {before start after : List (Char × Origin)} (h : KeepsClear ⟨parts, last⟩ needle)
    (hstart : start.map Prod.fst = needle)
    (hcut : marked ⟨parts, last⟩ value = before ++ (start ++ after)) :
    ∀ x ∈ start, x.2 = .value := by
  induction parts generalizing before with
  | nil =>
      refine absurd ?_ (h.free last List.mem_cons_self)
      refine ⟨before.map Prod.fst, after.map Prod.fst, ?_⟩
      rw [← hstart, ← List.map_append, ← List.map_append, List.append_assoc, ← hcut, map_marked]
      rfl
  | cons part parts ih =>
      obtain ⟨literal, t⟩ := part
      rw [marked_cons] at hcut
      -- it does not start in the literal
      obtain ⟨more, hmore⟩ : ∃ more, Origin.value.mark (value t) ++ marked ⟨parts, last⟩ value =
          more ++ (start ++ after) := by
        rcases List.append_eq_append_iff.mp hcut with ⟨more, -, hmore⟩ | ⟨inside, hliteral, hrest⟩
        · exact ⟨more, hmore⟩
        · rcases List.append_eq_append_iff.mp hrest with ⟨more, rfl, -⟩ | ⟨rest, rfl, hmore⟩
          · refine absurd ?_ (h.free literal List.mem_cons_self)
            refine ⟨before.map Prod.fst, more.map Prod.fst, ?_⟩
            rw [Origin.eq_of_mark_eq hliteral, List.map_append, hstart, List.append_assoc]
          · rw [List.map_append] at hstart
            obtain rfl : inside = [] :=
              List.map_eq_nil_iff.mp (h.before _ List.mem_cons_self (inside.map Prod.fst)
                ⟨_, (Origin.eq_of_mark_eq hliteral).symm⟩ ⟨_, hstart⟩)
            exact ⟨[], hmore⟩
      rcases List.append_eq_append_iff.mp hmore with ⟨before', rfl, hrest⟩ | ⟨inside, hvalue, hrest⟩
      · exact ih h.tail.toKeepsClear hrest
      · -- it starts in the value, with `inside`, and ends there or goes on
        have hinside : ∀ x ∈ inside, x.2 = .value := by
          intro x hx
          exact Origin.eq_of_mem_mark (hvalue ▸ List.mem_append_right more hx)
        rcases List.append_eq_append_iff.mp hrest with ⟨more', rfl, -⟩ | ⟨rest, rfl, hreach⟩
        · exact fun x hx => hinside x (List.mem_append_left _ hx)
        · exact h.tail.from_values hinside hstart hreach

end Markup

end PageLoom.Content
