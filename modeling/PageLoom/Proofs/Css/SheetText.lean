import PageLoom.Proofs.Css.Items

/-!
# Sheets as text — one item a line

    The text of a sheet is its items' texts, one a line, and items of which
    nothing remains leave no line.  So the texts of two sheets stand one
    after the other with a line end between them at most
    (`exists_sheetText_append`).  A style rule is dropped when its block or
    its selector list is blank (`scoped?_rule`), a grouping at-rule when the
    sheet inside gives no text (`sheetText_group`).
-/

namespace PageLoom.Css

open Text

/-! ## Lines -/

/-- The text of a sheet under a class. -/
def sheetText (cls : List Char) (items : List Item) : List Char :=
  joinLines (scopedItems cls items)

theorem joinLines_singleton (line : List Char) : joinLines [line] = line :=
  List.intercalate_singleton

theorem joinLines_cons_cons (line line' : List Char) (lines : List (List Char)) :
    joinLines (line :: line' :: lines) = line ++ '\n' :: joinLines (line' :: lines) := by
  rw [joinLines, List.intercalate_cons_cons, List.append_assoc]
  rfl

/-- Between lines stands a line end. -/
theorem joinLines_append {a b : List (List Char)} (ha : a ≠ []) (hb : b ≠ []) :
    joinLines (a ++ b) = joinLines a ++ '\n' :: joinLines b := by
  induction a with
  | nil => exact absurd rfl ha
  | cons line a ih =>
      cases a with
      | nil =>
          obtain ⟨line', b, rfl⟩ := List.exists_cons_of_ne_nil hb
          rw [joinLines_singleton]
          exact joinLines_cons_cons line line' b
      | cons line' a =>
          have hrest : joinLines (line' :: (a ++ b)) =
              joinLines (line' :: a) ++ '\n' :: joinLines b := ih (List.cons_ne_nil line' a)
          rw [List.cons_append, List.cons_append, joinLines_cons_cons, joinLines_cons_cons, hrest,
            List.append_assoc]
          rfl

/-- Between two lists of lines stands a line end or nothing. -/
theorem exists_joinLines_append (a b : List (List Char)) :
    ∃ sep, AllBlank sep ∧ joinLines (a ++ b) = joinLines a ++ sep ++ joinLines b := by
  by_cases ha : a = []
  · subst ha
    exact ⟨[], allBlank_nil, rfl⟩
  · by_cases hb : b = []
    · subst hb
      refine ⟨[], allBlank_nil, ?_⟩
      rw [List.append_nil, List.append_nil]
      exact (List.append_nil _).symm
    · refine ⟨['\n'], allBlank_newline, ?_⟩
      rw [joinLines_append ha hb, List.append_assoc]
      rfl

theorem scopedItems_cons (name : List Char) (item : Item) (items : List Item) :
    scopedItems name (item :: items) = (item.scoped? name).toList ++ scopedItems name items := by
  rw [scopedItems]
  cases item.scoped? name with
  | none => rfl
  | some text => rfl

theorem scopedItems_append (name : List Char) (a b : List Item) :
    scopedItems name (a ++ b) = scopedItems name a ++ scopedItems name b := by
  induction a with
  | nil => rfl
  | cons item a ih =>
      rw [List.cons_append, scopedItems_cons, scopedItems_cons, ih, List.append_assoc]

/-- The texts of two sheets stand one after the other. -/
theorem exists_sheetText_append (cls : List Char) (a b : List Item) :
    ∃ sep, AllBlank sep ∧ sheetText cls (a ++ b) = sheetText cls a ++ sep ++ sheetText cls b := by
  rw [sheetText, scopedItems_append]
  exact exists_joinLines_append _ _

/-- The text of one item. -/
theorem sheetText_singleton (cls : List Char) (item : Item) :
    sheetText cls [item] = (item.scoped? cls).getD [] := by
  rw [sheetText, scopedItems]
  cases item.scoped? cls with
  | none => rfl
  | some text => exact joinLines_singleton text

/-! ## Items -/

/-- The text of a style rule under a class. -/
theorem scoped?_rule (name selectors body : List Char) :
    (Item.rule selectors body).scoped? name =
      if body.isEmpty || (cleanMembers selectors).isEmpty then none
      else some (joinMembers ((cleanMembers selectors).map (scopeMember (scopeName name)))
        ++ '{' :: body ++ ['}']) := by
  have hlist : scopeList name selectors =
      joinMembers ((cleanMembers selectors).map (scopeMember (scopeName name))) := rfl
  have hempty : (joinMembers ((cleanMembers selectors).map (scopeMember (scopeName name)))).isEmpty =
      (cleanMembers selectors).isEmpty := by
    cases hms : cleanMembers selectors with
    | nil => rfl
    | cons m ms =>
        obtain ⟨hm, hne⟩ :=
          solid_of_mem_cleanMembers (hms ▸ List.mem_cons_self : m ∈ cleanMembers selectors)
        obtain ⟨c, t, hc, -⟩ := exists_head_scopeMember (scopeName name) hm hne
        obtain ⟨r, hr⟩ := exists_joinMembers_cons (ms.map (scopeMember (scopeName name)))
        rw [List.map_cons, hr, hc]
        rfl
  rw [Item.scoped?, hlist, hempty]

/-- The text of a grouping at-rule under a class. -/
theorem scoped?_group (name heading : List Char) (items : List Item) :
    (Item.group heading items).scoped? name =
      if sheetText name items = [] then none
      else some (heading ++ '{' :: '\n' :: sheetText name items ++ ['\n', '}']) := by
  have hstep : (Item.group heading items).scoped? name =
      if (sheetText name items).isEmpty then none
      else some (heading ++ '{' :: '\n' :: sheetText name items ++ ['\n', '}']) := by
    rw [Item.scoped?]
    rfl
  rw [hstep]
  cases sheetText name items with
  | nil => rfl
  | cons c t => rfl

/-- A sheet of one grouping at-rule. -/
theorem sheetText_group (cls heading : List Char) (items : List Item) :
    sheetText cls [.group heading items] =
      if sheetText cls items = [] then []
      else heading ++ ['{', '\n'] ++ sheetText cls items ++ ['\n', '}'] := by
  rw [sheetText_singleton, scoped?_group]
  split
  · rfl
  · simp only [List.append_assoc]
    rfl

end PageLoom.Css
