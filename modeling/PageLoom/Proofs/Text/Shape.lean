import Mathlib.Data.List.Infix
import PageLoom.Proofs.Text.Cut

/-!
# Shapes — a text as what is found in it and what lies between

    A shape is what a scanner looks for: how each find is written, and before
    which texts it counts (`Shape`).  A scan is a list of finds, each after a
    gap, and the text after the last (`Scan`).  In the leftmost scan nothing
    of the shape begins inside a gap, reading on into what follows it
    (`Shape.Leftmost`).

    If a text begins with at most one find (`Shape.Single`), it is the leftmost
    scan of itself in at most one way (`Shape.Leftmost.unique`): of two gaps
    the longer one would have a find inside.
-/

namespace PageLoom.Text

variable {α : Type}

/-- **A shape**: how a find is written, never as nothing, and which texts may
    follow it. -/
structure Shape (α : Type) where
  text : α → List Char
  Fits : α → List Char → Prop
  text_ne_nil : ∀ find, text find ≠ []

/-- **A scan**: finds, each after a gap, and the text after the last. -/
structure Scan (α : Type) where
  parts : List (List Char × α)
  last : List Char

namespace Scan

/-- The scan with something written in the place of each find. -/
def written (scan : Scan α) (write : α → List Char) : List Char :=
  scan.parts.flatMap (fun part => part.1 ++ write part.2) ++ scan.last

/-- The scan with a text before it, which joins the first gap. -/
def prepend (text : List Char) : Scan α → Scan α
  | ⟨[], last⟩ => ⟨[], text ++ last⟩
  | ⟨(gap, find) :: parts, last⟩ => ⟨(text ++ gap, find) :: parts, last⟩

theorem written_cons (gap : List Char) (find : α) (parts : List (List Char × α))
    (last : List Char) (write : α → List Char) :
    written ⟨(gap, find) :: parts, last⟩ write =
      gap ++ (write find ++ written ⟨parts, last⟩ write) := by
  rw [written, List.flatMap_cons, List.append_assoc, List.append_assoc]
  rfl

end Scan

namespace Shape

/-- Whether a text begins with a find. -/
def Begins (shape : Shape α) (cs : List Char) : Prop :=
  ∃ find rest, cs = shape.text find ++ rest ∧ shape.Fits find rest

/-- Whether nothing of the shape begins inside `gap` when it stands before
    `rest`. -/
def IsGap (shape : Shape α) (gap rest : List Char) : Prop :=
  ∀ tail, tail <:+ gap → tail ≠ [] → ¬shape.Begins (tail ++ rest)

/-- **Leftmost scans**: every find fits, and nothing of the shape begins inside a
    gap. -/
inductive Leftmost (shape : Shape α) : Scan α → Prop
  | last {last : List Char} : shape.IsGap last [] → Leftmost shape ⟨[], last⟩
  | part {gap last : List Char} {find : α} {parts : List (List Char × α)} :
      shape.IsGap gap (shape.text find ++ Scan.written ⟨parts, last⟩ shape.text) →
      shape.Fits find (Scan.written ⟨parts, last⟩ shape.text) → Leftmost shape ⟨parts, last⟩ →
      Leftmost shape ⟨(gap, find) :: parts, last⟩

/-- **A single find**: no text begins with two different ones. -/
def Single (shape : Shape α) : Prop :=
  ∀ (a b : α) (x y : List Char), shape.Fits a x → shape.Fits b y →
    shape.text a ++ x = shape.text b ++ y → a = b ∧ x = y

variable {shape : Shape α}

/-! ## Gaps -/

theorem isGap_cons_iff {c : Char} {gap rest : List Char} :
    shape.IsGap (c :: gap) rest ↔ ¬shape.Begins (c :: gap ++ rest) ∧ shape.IsGap gap rest := by
  constructor
  · intro h
    refine ⟨h (c :: gap) (List.suffix_refl _) (List.cons_ne_nil _ _), ?_⟩
    intro tail htail
    exact h tail (htail.trans (List.suffix_cons c gap))
  · rintro ⟨hstart, hrest⟩ tail htail hne
    rcases List.suffix_cons_iff.mp htail with rfl | htail
    · exact hstart
    · exact hrest tail htail hne

/-- A find that begins in a longer text begins after the gap. -/
theorem IsGap.eq_nil_of_append {gap extra rest : List Char} (h : shape.IsGap (gap ++ extra) rest)
    (hbegins : shape.Begins (extra ++ rest)) : extra = [] := by
  by_contra hne
  exact h extra (List.suffix_append gap extra) hne hbegins

/-- A text with a find in it is no gap. -/
theorem IsGap.absurd {last gap rest : List Char} {find : α} (h : shape.IsGap last [])
    (heq : last = gap ++ (shape.text find ++ rest)) (hfits : shape.Fits find rest) : False := by
  subst heq
  have hbegins : shape.Begins (shape.text find ++ rest ++ []) :=
    ⟨find, rest, List.append_nil _, hfits⟩
  have hnil := h.eq_nil_of_append hbegins
  exact shape.text_ne_nil find (List.append_eq_nil_iff.mp hnil).1

/-- **A gap ends** where the first find begins. -/
theorem IsGap.unique {gap gap' rest rest' : List Char} (h : shape.IsGap gap rest)
    (h' : shape.IsGap gap' rest') (hrest : shape.Begins rest) (hrest' : shape.Begins rest')
    (heq : gap ++ rest = gap' ++ rest') : gap = gap' ∧ rest = rest' := by
  rcases List.append_eq_append_iff.mp heq with ⟨extra, rfl, rfl⟩ | ⟨extra, rfl, rfl⟩
  · obtain rfl := h'.eq_nil_of_append hrest
    exact ⟨(List.append_nil gap).symm, rfl⟩
  · obtain rfl := h.eq_nil_of_append hrest'
    exact ⟨List.append_nil gap', rfl⟩

/-! ## Scans -/

/-- A character at which nothing begins joins the first gap. -/
theorem Leftmost.prepend {scan : Scan α} (h : shape.Leftmost scan) {c : Char}
    (hc : ¬shape.Begins (c :: scan.written shape.text)) : shape.Leftmost (scan.prepend [c]) := by
  cases h with
  | @last last hlast =>
      refine .last (isGap_cons_iff.mpr ⟨?_, hlast⟩)
      rw [List.append_nil]
      exact hc
  | @part gap last find parts hgap hfits hrest =>
      rw [Scan.written_cons] at hc
      exact .part (isGap_cons_iff.mpr ⟨hc, hgap⟩) hfits hrest

/-- **A text is one leftmost scan at most.** -/
theorem Leftmost.unique {scan scan' : Scan α} (hsingle : shape.Single) (h : shape.Leftmost scan)
    (h' : shape.Leftmost scan')
    (heq : scan.written shape.text = scan'.written shape.text) : scan = scan' := by
  -- on the first scan; a find of one that the other misses would begin in a gap
  induction h generalizing scan' with
  | @last last hlast =>
      cases h' with
      | @last last' _ => rw [show last = last' from heq]
      | part _ hfits' _ =>
          rw [Scan.written_cons] at heq
          exact (hlast.absurd heq hfits').elim
  | part hgap hfits _ ih =>
      cases h' with
      | last hlast' =>
          rw [Scan.written_cons] at heq
          exact (hlast'.absurd heq.symm hfits).elim
      | part hgap' hfits' hrest' =>
          rw [Scan.written_cons, Scan.written_cons] at heq
          obtain ⟨rfl, hfound⟩ := hgap.unique hgap' ⟨_, _, rfl, hfits⟩ ⟨_, _, rfl, hfits'⟩ heq
          obtain ⟨rfl, hrest⟩ := hsingle _ _ _ _ hfits hfits' hfound
          cases ih hrest' hrest
          rfl

/-- A text that is a leftmost scan is so in exactly one way. -/
theorem Leftmost.only {scan : Scan α} (hsingle : shape.Single) (h : shape.Leftmost scan)
    (other : Scan α) :
    other.written shape.text = scan.written shape.text ∧ shape.Leftmost other ↔ other = scan := by
  constructor
  · rintro ⟨heq, hother⟩
    exact hother.unique hsingle h heq
  · rintro rfl
    exact ⟨rfl, h⟩

end Shape

end PageLoom.Text
