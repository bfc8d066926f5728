import PageLoom.Css.Quoting
import PageLoom.Text.Blank

/-!
# Segments — the top-level pieces of a stylesheet

    A stylesheet is cut after every closing brace at depth one and after
    every semicolon at depth zero; strings hide both.  A closing brace with
    nothing open ends a piece as well.  Whatever stands after the last cut
    is a piece of its own unless it is blank.
-/

namespace PageLoom.Css

/-- A top-level piece of a stylesheet. -/
inductive Segment
  /-- text up to and including the brace that closes it -/
  | block (text : List Char)
  /-- text up to and including a semicolon -/
  | statement (text : List Char)
  /-- the last text, with a block that never closes -/
  | unterminated (text : List Char)
  /-- the last text, with no block open -/
  | tail (text : List Char)
  deriving DecidableEq, Repr

namespace Segment

/-- The characters of a segment. -/
def text : Segment → List Char
  | .block t => t
  | .statement t => t
  | .unterminated t => t
  | .tail t => t

/-- Whether the segment ends where it should. -/
def isClosed : Segment → Bool
  | .block _ => true
  | .statement _ => true
  | .unterminated _ => false
  | .tail _ => false

end Segment

/-- The segments of a text whose scan stands at `quoting` and `depth`, with
    `read` the characters since the last cut, last first. -/
def segmentsFrom (quoting : Quoting) (depth : Nat) (read : List Char) :
    List Char → List Segment
  | [] =>
      let rest := read.reverse
      if rest.all Text.isBlank then []
      else if 0 < depth then [.unterminated rest]
      else [.tail rest]
  | c :: cs =>
      let q := quoting.next c
      let read := c :: read
      if quoting ≠ .code then segmentsFrom q depth read cs
      else if c = '{' then segmentsFrom q (depth + 1) read cs
      else if c = '}' then
        if 1 < depth then segmentsFrom q (depth - 1) read cs
        else .block read.reverse :: segmentsFrom q 0 [] cs
      else if c = ';' && depth = 0 then .statement read.reverse :: segmentsFrom q 0 [] cs
      else segmentsFrom q depth read cs

/-- **Segmentation**. -/
def segments (css : List Char) : List Segment :=
  segmentsFrom .code 0 [] css

/-- Every segment is a part of the text. -/
theorem length_of_mem_segmentsFrom {quoting : Quoting} {depth : Nat} {read cs : List Char}
    {s : Segment} (h : s ∈ segmentsFrom quoting depth read cs) :
    s.text.length ≤ read.length + cs.length := by
  induction cs generalizing quoting depth read with
  | nil =>
      rw [segmentsFrom] at h
      split at h
      · exact nomatch h
      · split at h <;> simp only [List.mem_singleton] at h <;> subst h <;> simp [Segment.text]
  | cons c cs ih =>
      simp only [segmentsFrom] at h
      split at h
      · have := ih h
        simp only [List.length_cons] at this ⊢
        omega
      split at h
      · have := ih h
        simp only [List.length_cons] at this ⊢
        omega
      split at h
      · split at h
        · have := ih h
          simp only [List.length_cons] at this ⊢
          omega
        · rcases List.mem_cons.mp h with rfl | h
          · simp only [Segment.text, List.length_reverse, List.length_cons]
            omega
          · have := ih h
            simp only [List.length_nil, List.length_cons] at this ⊢
            omega
      split at h
      · rcases List.mem_cons.mp h with rfl | h
        · simp only [Segment.text, List.length_reverse, List.length_cons]
          omega
        · have := ih h
          simp only [List.length_nil, List.length_cons] at this ⊢
          omega
      · have := ih h
        simp only [List.length_cons] at this ⊢
        omega

/-- Every segment of a text is no longer than the text. -/
theorem length_of_mem_segments {css : List Char} {s : Segment} (h : s ∈ segments css) :
    s.text.length ≤ css.length := by
  simpa using length_of_mem_segmentsFrom h

end PageLoom.Css
