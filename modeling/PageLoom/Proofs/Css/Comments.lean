import PageLoom.Proofs.Css.Stripped

/-!
# Comments at the seams — removing them from one text after another

    Comment removal reads two characters at a time, so a comment may open or
    close across the seam of two texts.  Where the first text leaves the scan
    outside comments (`Stripping.after`) and does not end in a slash, no
    comment does, and removing comments from both texts together is removing
    them from each (`Stripping.scan_append`).  The scan stands in the same string
    after a text as after what is left of it (`Stripping.quoting_after`).
-/

namespace PageLoom.Css

namespace Stripping

/-- Where comment removal stands after a text. -/
def after : Stripping → List Char → Stripping
  | state, [] => state
  | .text .code, '/' :: '*' :: cs => after .comment cs
  | .text q, c :: cs => after (.text (q.next c)) cs
  | .comment, '*' :: '/' :: cs => after (.text .code) cs
  | .comment, _ :: cs => after .comment cs

/-- Where the scan for strings stands: outside them inside a comment. -/
def quoting : Stripping → Quoting
  | .text q => q
  | .comment => .code

theorem after_cons {q : Quoting} {c : Char} {t : List Char} (h : ¬Opens q c t) :
    after (.text q) (c :: t) = after (.text (q.next c)) t := by
  rw [after]
  rintro s rfl rfl rfl
  exact h ⟨rfl, rfl, rfl⟩

/-- A comment that does not close at once goes on. -/
theorem after_comment {c : Char} {t : List Char} (h : ¬(c = '*' ∧ t.head? = some '/')) :
    after .comment (c :: t) = after .comment t := by
  rw [after]
  rintro s rfl rfl
  exact h ⟨rfl, rfl⟩

/-- **Removing comments keeps the place in strings.** -/
theorem quoting_after {state : Stripping} {t : List Char} {q : Quoting}
    (h : state.after t = .text q) : state.quoting.after (stripFrom state t) = q := by
  induction state, t using stripFrom.induct with
  | case1 state =>
      rw [after] at h
      rw [h, stripFrom]
      rfl
  | case2 cs ih =>
      rw [after] at h
      rw [stripFrom]
      exact ih h
  | case3 r c cs hopens ih =>
      rw [after] at h
      · rw [stripFrom]
        · exact ih h
        · exact hopens
      · exact hopens
  | case4 cs ih =>
      rw [after] at h
      rw [stripFrom]
      exact ih h
  | case5 c cs hcloses ih =>
      rw [after] at h
      · rw [stripFrom]
        · exact ih h
        · exact hcloses
      · exact hcloses

end Stripping

/-- Inside a comment that goes on nothing is kept. -/
theorem stripFrom_comment {c : Char} {t : List Char} (h : ¬(c = '*' ∧ t.head? = some '/')) :
    stripFrom .comment (c :: t) = stripFrom .comment t := by
  rw [stripFrom]
  rintro s rfl rfl
  exact h ⟨rfl, rfl⟩

/-- **Two texts in turn**, when no comment opens or closes across the seam: where
    comment removal stands after them, and what it leaves of them. -/
theorem Stripping.scan_append {state : Stripping} {a b : List Char} {q : Quoting}
    (h : state.after a = .text q)
    (hseam : (stripFrom state a).getLast? = some '/' → b.head? ≠ some '*') :
    state.after (a ++ b) = after (.text q) b ∧
      stripFrom state (a ++ b) = stripFrom state a ++ stripFrom (.text q) b := by
  induction state, a using stripFrom.induct with
  | case1 state =>
      rw [Stripping.after] at h
      rw [h, stripFrom, List.nil_append]
      exact ⟨rfl, rfl⟩
  | case2 cs ih =>
      rw [Stripping.after] at h
      rw [stripFrom] at hseam ⊢
      rw [List.cons_append, List.cons_append, stripFrom, Stripping.after]
      exact ih h hseam
  | case3 r c cs hopens ih =>
      have hinside : ¬Opens r c cs := by
        rintro ⟨rfl, rfl, hhead⟩
        obtain ⟨s, rfl⟩ := List.head?_eq_some_iff.mp hhead
        exact hopens s rfl rfl rfl
      -- at the end of the first text a slash would be its last character
      have hacross : ¬Opens r c (cs ++ b) := by
        rintro ⟨rfl, rfl, hhead⟩
        cases cs with
        | nil => exact hseam (by rw [stripFrom_cons hinside, stripFrom]; rfl) hhead
        | cons d cs => exact hinside ⟨rfl, rfl, hhead⟩
      rw [Stripping.after_cons hinside] at h
      rw [stripFrom_cons hinside] at hseam ⊢
      obtain ⟨hafter, hstrip⟩ := ih h fun hslash =>
        hseam (by rw [List.getLast?_cons, hslash]; rfl)
      rw [List.cons_append, stripFrom_cons hacross, Stripping.after_cons hacross, hstrip]
      exact ⟨hafter, rfl⟩
  | case4 cs ih =>
      rw [Stripping.after] at h
      rw [stripFrom] at hseam ⊢
      rw [List.cons_append, List.cons_append, stripFrom, Stripping.after]
      exact ih h hseam
  | case5 c cs hcloses ih =>
      have hinside : ¬(c = '*' ∧ cs.head? = some '/') := by
        rintro ⟨rfl, hhead⟩
        obtain ⟨s, rfl⟩ := List.head?_eq_some_iff.mp hhead
        exact hcloses s rfl rfl
      have hacross : ¬(c = '*' ∧ (cs ++ b).head? = some '/') := by
        rintro ⟨rfl, hhead⟩
        cases cs with
        | nil =>
            -- the first text would end inside the comment
            rw [Stripping.after_comment hinside, Stripping.after] at h
            cases h
        | cons d cs => exact hinside ⟨rfl, hhead⟩
      rw [Stripping.after_comment hinside] at h
      rw [stripFrom_comment hinside] at hseam ⊢
      rw [List.cons_append, stripFrom_comment hacross, Stripping.after_comment hacross]
      exact ih h hseam

/-- **Comments of two texts**, when none opens or closes across the seam. -/
theorem stripFrom_append {state : Stripping} {a : List Char} {q : Quoting}
    (h : state.after a = .text q) (hlast : (stripFrom state a).getLast? ≠ some '/')
    (b : List Char) :
    stripFrom state (a ++ b) = stripFrom state a ++ stripFrom (.text q) b :=
  (Stripping.scan_append h fun hslash => absurd hslash hlast).2

end PageLoom.Css
