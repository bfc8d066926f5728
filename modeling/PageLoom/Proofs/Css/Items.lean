import PageLoom.Proofs.Css.Members
import PageLoom.Proofs.Text.Cut

/-!
# Items — what reading makes of each piece

    Reading trims a piece and looks at its first character and its first
    brace (`readItem`).  The items of a sheet are those of its pieces
    (`itemsOf_eq`), so they fall apart at the first cut (`itemsOf_cut`),
    and a text without a cut gives one item at most (`itemsOf_uncut`).
    Trimming keeps the character that ends a piece and the level before it
    (`exists_piece`).  An at-rule is a grouping one by its name alone, which
    ends at the first character that no name holds (`isGrouping_stop`).
-/

namespace PageLoom.Css

open Text

/-! ## Items of pieces -/

/-- The item that a trimmed piece gives; `closed` tells whether the piece ends
    where it should. -/
def readItem (closed : Bool) (text : List Char) : Option Item :=
  match cutAtBrace text with
  | none => if text.head? = some '@' then some (.verbatim text) else none
  | some (before, after) =>
      if text.head? = some '@' then
        if !closed then none
        else if isGrouping text then some (.group (trim before) (itemsOf (withoutClose after)))
        else some (.verbatim text)
      else some (.rule before (trim (withoutClose after)))

/-- **Reading goes piece by piece.** -/
theorem itemsOf_eq (css : List Char) :
    itemsOf css = (segments css).filterMap fun s => readItem s.isClosed (trim s.text) := by
  rw [itemsOf]
  conv => rhs; rw [← List.attach_map_subtype_val (segments css), List.filterMap_map]
  refine congrArg (List.filterMap · _) (funext fun s => ?_)
  show _ = readItem s.val.isClosed (trim s.val.text)
  rw [readItem]
  dsimp only
  split <;> rename_i h <;> rw [h]

/-- A piece without a brace is an at-rule or nothing. -/
theorem readItem_of_no_brace {text : List Char} (h : '{' ∉ text) (closed : Bool) :
    readItem closed text = if text.head? = some '@' then some (.verbatim text) else none := by
  have hcut : cutAtBrace text = none := cutAtChar_of_not_mem h
  rw [readItem, hcut]

/-- A piece with a brace, by its first character. -/
theorem readItem_of_brace {before : List Char} (h : '{' ∉ before) (closed : Bool)
    (after : List Char) :
    readItem closed (before ++ '{' :: after) =
      if (before ++ '{' :: after).head? = some '@' then
        if !closed then none
        else if isGrouping (before ++ '{' :: after) then
          some (.group (trim before) (itemsOf (withoutClose after)))
        else some (.verbatim (before ++ '{' :: after))
      else some (.rule before (trim (withoutClose after))) := by
  have hcut : cutAtBrace (before ++ '{' :: after) = some (before, after) :=
    cutAtChar_eq_some_iff.mpr ⟨rfl, h⟩
  rw [readItem, hcut]

/-- **The items of a text with a cut.** -/
theorem itemsOf_cut {u : List Char} {n : Nat} {c : Char} (hu : Quoting.code.after u = .code)
    (h : levelAfter braces .code 0 u = some n) (hc : braces n c = none) (rest : List Char) :
    itemsOf (u ++ c :: rest) = (readItem true (trim (u ++ [c]))).toList ++ itemsOf rest := by
  rw [itemsOf_eq, segments_of_cut hu h hc, List.filterMap_cons, ← itemsOf_eq, isClosed_pieceAt,
    text_pieceAt]
  cases readItem true (trim (u ++ [c])) with
  | none => rfl
  | some item => rfl

/-- **The items of a text without a cut.** -/
theorem itemsOf_uncut {t : List Char} {n : Nat} (h : levelAfter braces .code 0 t = some n) :
    itemsOf t = (readItem false (trim t)).toList := by
  rw [itemsOf_eq, segments_of_uncut h, lastPiece]
  by_cases hblank : t.all isBlank = true
  · rw [if_pos hblank, trim_eq_nil_iff.mpr (allBlank_iff_all.mp hblank)]
    rfl
  · rw [if_neg hblank]
    split <;>
      · show List.filterMap _ [_] = _
        rw [List.filterMap_cons]
        cases hread : readItem false (trim t) with
        | none => simp only [Segment.isClosed, Segment.text, hread]; rfl
        | some item => simp only [Segment.isClosed, Segment.text, hread]; rfl

/-- A blank text has no items. -/
theorem itemsOf_allBlank {t : List Char} (h : AllBlank t) : itemsOf t = [] := by
  rw [itemsOf_uncut (levelAfter_allBlank skipsBlanks_braces h .code 0), trim_eq_nil_iff.mpr h]
  rfl

/-- Only a closing brace at the end is left out. -/
theorem withoutClose_close (t : List Char) : withoutClose (t ++ ['}']) = t := by
  rw [withoutClose, List.getLast?_concat, if_pos rfl, List.dropLast_concat]

theorem withoutClose_semicolon (t : List Char) : withoutClose (t ++ [';']) = t ++ [';'] := by
  rw [withoutClose, List.getLast?_concat, if_neg (by decide)]

/-! ## Trimmed pieces -/

/-- A character that cuts is not white space. -/
theorem not_blank_of_cut {n : Nat} {c : Char} (h : braces n c = none) : isBlank c = false := by
  rcases braces_eq_none_iff.mp h with ⟨rfl, -⟩ | ⟨rfl, -⟩ <;> decide

/-- **A trimmed piece ends like the piece**, and no scan sees the difference. -/
theorem exists_piece {u : List Char} {n : Nat} {c : Char} (hu : Quoting.code.after u = .code)
    (h : levelAfter braces .code 0 u = some n) (hc : braces n c = none) :
    ∃ v, trim (u ++ [c]) = v ++ [c] ∧ Quoting.code.after v = .code ∧
      levelAfter braces .code 0 v = some n ∧ v.length ≤ u.length := by
  obtain ⟨hlevel, hafter⟩ := scan_trimStart (q := .code) skipsBlanks_braces trivial rfl 0 u
  exact ⟨trimStart u, trim_concat (not_blank_of_cut hc) u, hafter.trans hu, hlevel.trans h,
    length_trimStart_le u⟩

/-! ## Names of at-rules -/

/-- The name of an at-rule ends at the first character that no name holds. -/
theorem takeWhile_stop {x : Char} (hx : isAtNameChar x = false) (a b : List Char) :
    (a ++ x :: b).takeWhile isAtNameChar = a.takeWhile isAtNameChar := by
  induction a with
  | nil =>
      rw [List.nil_append, List.takeWhile_cons, hx]
      rfl
  | cons c a ih =>
      rw [List.cons_append, List.takeWhile_cons, List.takeWhile_cons, ih]

/-- Whether an at-rule is a grouping one is decided before the first character
    that no name holds. -/
theorem isGrouping_stop {x : Char} (hx : isAtNameChar x = false) (c : Char) (a b : List Char) :
    isGrouping (c :: a ++ x :: b) = isGrouping (c :: a) := by
  have hname : atRuleName (c :: a ++ x :: b) = atRuleName (c :: a) := by
    show atRuleName (c :: (a ++ x :: b)) = _
    rw [atRuleName, atRuleName, List.drop_one, List.tail_cons, takeWhile_stop hx]
    rfl
  rw [isGrouping, isGrouping, hname]

theorem isAtNameChar_of_isBlank {c : Char} (h : isBlank c = true) : isAtNameChar c = false := by
  have hdash : c ≠ '-' := ne_of_isBlank h (by decide)
  have hline : c ≠ '_' := ne_of_isBlank h (by decide)
  rw [isAtNameChar, isAlphanum_of_isBlank h, beq_eq_false_iff_ne.mpr hdash,
    beq_eq_false_iff_ne.mpr hline]
  rfl

/-- White space after an at-rule does not make it another one. -/
theorem isGrouping_append {b : List Char} (hb : AllBlank b) (c : Char) (a : List Char) :
    isGrouping (c :: a ++ b) = isGrouping (c :: a) := by
  cases b with
  | nil => rw [List.append_nil]
  | cons x b => exact isGrouping_stop (isAtNameChar_of_isBlank (allBlank_cons.mp hb).1) c a b

end PageLoom.Css
