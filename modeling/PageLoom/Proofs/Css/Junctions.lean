import PageLoom.Proofs.Css.Comments
import PageLoom.Proofs.Css.Firm

/-!
# Junctions — where removing comments makes one

    A comment goes without a replacement, so a slash before it and a star
    after it meet, and open a comment that the text did not have.  Outside
    strings a comment opens in what comment removal leaves exactly at such a
    junction, and exactly then removing comments once more takes something
    away (`bare_stripComments_iff`).

    Every character that is left has a place in the text, where the scan
    stands outside comments, and between two that are left stand comments
    only (`exists_of_stripFrom_append`).
-/

namespace PageLoom.Css

/-! ## Bare texts -/

/-- **A bare text**: where the scan stands outside strings, no comment opens. -/
def Bare (q : Quoting) (t : List Char) : Prop :=
  ∀ u v, t = u ++ '/' :: '*' :: v → q.after u ≠ .code

theorem bare_cons_iff {q : Quoting} {c : Char} {t : List Char} :
    Bare q (c :: t) ↔ ¬Opens q c t ∧ Bare (q.next c) t := by
  constructor
  · intro h
    refine ⟨?_, fun u v heq => h (c :: u) v (by rw [heq, List.cons_append])⟩
    rintro ⟨rfl, rfl, hhead⟩
    obtain ⟨s, rfl⟩ := List.head?_eq_some_iff.mp hhead
    exact h [] s rfl rfl
  · rintro ⟨hopens, hrest⟩ u v heq hu
    cases u with
    | nil =>
        obtain ⟨rfl, rfl⟩ := List.cons.inj heq
        exact hopens ⟨hu, rfl, rfl⟩
    | cons d u =>
        obtain ⟨rfl, rfl⟩ := List.cons.inj heq
        exact hrest u v rfl hu

/-- **Comment removal leaves the bare texts as they are**, and no others. -/
theorem stripFrom_eq_self_iff {q : Quoting} {t : List Char} :
    stripFrom (.text q) t = t ↔ Bare q t := by
  induction t generalizing q with
  | nil => exact iff_of_true (by rw [stripFrom]) fun u v heq => absurd heq.symm (by simp)
  | cons c t ih =>
      rw [bare_cons_iff, ← ih]
      constructor
      · exact not_opens_of_stripFrom
      · rintro ⟨hopens, hrest⟩
        rw [stripFrom_cons hopens, hrest]

instance (q : Quoting) (t : List Char) : Decidable (Bare q t) :=
  decidable_of_iff _ stripFrom_eq_self_iff

/-! ## Junctions -/

/-- A run of comments, each of them closed. -/
def ClosedComments (g : List Char) : Prop :=
  Stripping.after (.text .code) g = .text .code ∧ stripComments g = []

instance (g : List Char) : Decidable (ClosedComments g) :=
  inferInstanceAs (Decidable (_ ∧ _))

/-- **A junction**: outside strings and comments, a slash and a star with comments
    between them and nothing else. -/
def HasJunction (css : List Char) : Prop :=
  ∃ before comments after, css = before ++ '/' :: comments ++ '*' :: after ∧
    Stripping.after (.text .code) before = .text .code ∧ comments ≠ [] ∧ ClosedComments comments

/-- A run of comments starts with a slash. -/
theorem ClosedComments.head? {g : List Char} (h : ClosedComments g) (hne : g ≠ []) :
    g.head? = some '/' := by
  cases g with
  | nil => exact absurd rfl hne
  | cons c g =>
      by_cases hopens : Opens .code c g
      · rw [List.head?_cons, hopens.2.1]
      · have hstrip : stripFrom (.text .code) (c :: g) = [] := h.2
        rw [stripFrom_cons hopens] at hstrip
        cases hstrip

/-- At a junction the slash and the star meet. -/
theorem HasJunction.not_bare {css : List Char} (h : HasJunction css) :
    ¬Bare .code (stripComments css) := by
  obtain ⟨before, comments, after, rfl, hbefore, hne, hcomments⟩ := h
  have hhead : (comments ++ '*' :: after).head? = some '/' := by
    rw [List.head?_append, hcomments.head? hne]
    rfl
  have hopens : ¬Opens .code '/' (comments ++ '*' :: after) := by
    rintro ⟨-, -, hstar⟩
    rw [hhead] at hstar
    cases hstar
  have hcomments' : stripFrom (.text .code) (comments ++ '*' :: after) =
      '*' :: stripFrom (.text .code) after := by
    have hnone : stripFrom (.text .code) comments = [] := hcomments.2
    rw [stripFrom_append hcomments.1 (by rw [hnone]; simp), hnone, List.nil_append,
      stripFrom_cons (by rintro ⟨-, hc, -⟩; cases hc)]
    rfl
  have hstrip : stripComments (before ++ '/' :: comments ++ '*' :: after) =
      stripComments before ++ '/' :: '*' :: stripFrom (.text .code) after := by
    rw [List.append_assoc, List.cons_append, stripComments,
      (Stripping.scan_append hbefore fun _ => by rw [List.head?_cons]; decide).2,
      stripFrom_cons hopens]
    show stripFrom (.text .code) before ++ '/' :: stripFrom (.text .code) _ = _
    rw [hcomments']
    rfl
  intro hbare
  exact hbare _ _ hstrip (Stripping.quoting_after hbefore)

/-! ## What is left, and where it stood -/

/-- **The first character that is left** stands behind comments only. -/
theorem exists_of_stripFrom_cons {state : Stripping} {css w : List Char} {c : Char}
    (h : stripFrom state css = c :: w) :
    ∃ g t q, css = g ++ c :: t ∧ state.after g = .text q ∧ stripFrom state g = [] ∧
      ¬Opens q c t ∧ w = stripFrom (.text (q.next c)) t := by
  induction state, css using stripFrom.induct with
  | case1 state =>
      rw [stripFrom] at h
      cases h
  | case2 cs ih =>
      rw [stripFrom] at h
      obtain ⟨g, t, q, rfl, hafter, hstrip, hopens, hw⟩ := ih h
      exact ⟨'/' :: '*' :: g, t, q, rfl, by rw [Stripping.after, hafter],
        by rw [stripFrom, hstrip], hopens, hw⟩
  | case3 r d cs hopens ih =>
      have hd : ¬Opens r d cs := by
        rintro ⟨rfl, rfl, hhead⟩
        obtain ⟨s, rfl⟩ := List.head?_eq_some_iff.mp hhead
        exact hopens s rfl rfl rfl
      rw [stripFrom_cons hd] at h
      obtain ⟨rfl, hw⟩ := List.cons.inj h
      exact ⟨[], cs, r, rfl, by rw [Stripping.after], by rw [stripFrom], hd, hw.symm⟩
  | case4 cs ih =>
      rw [stripFrom] at h
      obtain ⟨g, t, q, rfl, hafter, hstrip, hopens, hw⟩ := ih h
      exact ⟨'*' :: '/' :: g, t, q, rfl, by rw [Stripping.after, hafter],
        by rw [stripFrom, hstrip], hopens, hw⟩
  | case5 d cs hcloses ih =>
      have hd : ¬(d = '*' ∧ cs.head? = some '/') := by
        rintro ⟨rfl, hhead⟩
        obtain ⟨s, rfl⟩ := List.head?_eq_some_iff.mp hhead
        exact hcloses s rfl rfl
      rw [stripFrom_comment hd] at h
      obtain ⟨g, t, q, rfl, hafter, hstrip, hopens, hw⟩ := ih h
      -- the comment goes on in what is dropped, which is not empty
      have hg : ¬(d = '*' ∧ g.head? = some '/') := by
        rintro ⟨rfl, hhead⟩
        exact hd ⟨rfl, by rw [List.head?_append, hhead]; rfl⟩
      exact ⟨d :: g, t, q, rfl, by rw [Stripping.after_comment hg, hafter],
        by rw [stripFrom_comment hg, hstrip], hopens, hw⟩

/-- **The start of what is left** comes from the start of the text. -/
theorem exists_of_stripFrom_append {q : Quoting} {css u w : List Char}
    (h : stripFrom (.text q) css = u ++ w) :
    ∃ a t r, css = a ++ t ∧ Stripping.after (.text q) a = .text r ∧
      stripFrom (.text q) a = u ∧ w = stripFrom (.text r) t := by
  induction u generalizing q css with
  | nil => exact ⟨[], css, q, rfl, by rw [Stripping.after], by rw [stripFrom], h.symm⟩
  | cons c u ih =>
      obtain ⟨g, s, r, rfl, hafter, hstrip, hopens, hrest⟩ := exists_of_stripFrom_cons h
      obtain ⟨a, t, r', rfl, hafter', hstrip', hw⟩ := ih hrest.symm
      have hopens' : ¬Opens r c a := by
        rintro ⟨rfl, rfl, hhead⟩
        exact hopens ⟨rfl, rfl, by rw [List.head?_append, hhead]; rfl⟩
      obtain ⟨hafter'', hstrip''⟩ := Stripping.scan_append (b := c :: a) hafter fun hslash => by
        rw [hstrip] at hslash
        cases hslash
      refine ⟨g ++ c :: a, t, r', by rw [List.append_assoc, List.cons_append], ?_, ?_, hw⟩
      · rw [hafter'', Stripping.after_cons hopens', hafter']
      · rw [hstrip'', hstrip, stripFrom_cons hopens', hstrip', List.nil_append]

/-- A comment that opens in what is left comes from a junction. -/
theorem hasJunction_of_not_bare {css : List Char} (h : ¬Bare .code (stripComments css)) :
    HasJunction css := by
  obtain ⟨u, v, hstrip, hu⟩ : ∃ u v, stripComments css = u ++ '/' :: '*' :: v ∧
      Quoting.code.after u = .code := by
    rw [Bare] at h
    push Not at h
    exact h
  obtain ⟨a, s, r, rfl, hafter, hleft, hs⟩ := exists_of_stripFrom_append hstrip
  obtain rfl : .code = r := by
    have hquoting := Stripping.quoting_after hafter
    rw [hleft] at hquoting
    exact hu.symm.trans hquoting
  -- the slash, behind comments, and the star, behind comments again
  obtain ⟨g, s', r, rfl, hafterg, hstripg, hopens, hstar⟩ := exists_of_stripFrom_cons hs.symm
  obtain rfl : .code = r := by
    have hquoting := Stripping.quoting_after hafterg
    rwa [hstripg] at hquoting
  obtain ⟨k, t, r, rfl, hafterk, hstripk, -, -⟩ := exists_of_stripFrom_cons hstar.symm
  obtain rfl : .code = r := by
    have hquoting := Stripping.quoting_after hafterk
    rwa [hstripk] at hquoting
  refine ⟨a ++ g, k, t, by simp only [List.append_assoc, List.cons_append], ?_, ?_, hafterk,
    hstripk⟩
  · rw [(Stripping.scan_append hafter ?_).1, hafterg]
    -- comments start with a slash, so the seam opens none
    intro _ hhead
    cases g with
    | nil => cases hhead
    | cons c g =>
        have hslash := ClosedComments.head? ⟨hafterg, hstripg⟩ (List.cons_ne_nil c g)
        rw [hhead] at hslash
        cases hslash
  · rintro rfl
    exact hopens ⟨rfl, rfl, rfl⟩

/-- **Comment removal is complete** but for junctions: a comment opens in what it
    leaves, and goes when comments are removed once more, exactly when
    the text has a slash and a star with only comments between them. -/
theorem bare_stripComments_iff (css : List Char) :
    (Bare .code (stripComments css) ↔ ¬HasJunction css) ∧
      (stripComments (stripComments css) = stripComments css ↔ ¬HasJunction css) := by
  have hbare : Bare .code (stripComments css) ↔ ¬HasJunction css :=
    ⟨fun hbare hjunction => hjunction.not_bare hbare,
      fun hnone => Classical.byContradiction fun hbare => hnone (hasJunction_of_not_bare hbare)⟩
  exact ⟨hbare, stripFrom_eq_self_iff.trans hbare⟩

/-- A junction opens a comment, which a second removal takes away with all that
    follows. -/
theorem not_bare_stripComments :
    ¬(Bare .code (stripComments "//**/*x\x7ba:b\x7d".toList) ∧
      stripComments (stripComments "//**/*x\x7ba:b\x7d".toList) =
        stripComments "//**/*x\x7ba:b\x7d".toList) := by
  decide

end PageLoom.Css
