import PageLoom.Proofs.Css.ScopedRule
import PageLoom.Proofs.Css.SheetText

/-!
# Faithful sheets — reading the items of a scoped sheet one by one

    A sheet is faithful when a reader meets confined members only in its
    scoped text exactly when its rules expose such members only.  An item
    that leaves the reader at a new heading (`EndsAnew`) can be read apart
    from what follows, so faithful sheets can be put one after the other
    (`Faithful.append`).  Each kind of item is faithful: at-rules kept as
    written hold no style rules (`faithful_verbatim`), a style rule by
    `meetsConfined_rule` (`faithful_rule`), and a grouping at-rule when the
    sheet inside is and ends outside strings and blocks (`faithful_group`).
-/

namespace PageLoom.Css

open Text

/-! ## The parts of a sheet -/

mutual
/-- The style rules of an item at any depth: selectors and block. -/
def Item.styleRules : Item → List (List Char × List Char)
  | .rule selectors body => [(selectors, body)]
  | .group _ items => styleRulesOf items
  | .verbatim _ => []

/-- The style rules of a sheet at any depth. -/
def styleRulesOf : List Item → List (List Char × List Char)
  | [] => []
  | item :: items => item.styleRules ++ styleRulesOf items
end

mutual
/-- The headings of an item's grouping at-rules at any depth. -/
def Item.groupHeadings : Item → List (List Char)
  | .rule _ _ => []
  | .group heading items => heading :: groupHeadingsOf items
  | .verbatim _ => []

/-- The headings of a sheet's grouping at-rules at any depth. -/
def groupHeadingsOf : List Item → List (List Char)
  | [] => []
  | item :: items => item.groupHeadings ++ groupHeadingsOf items
end

/-- Whether every grouping at-rule of a sheet closes the strings of its
    heading before its brace. -/
def HeadingsClosed (items : List Item) : Prop :=
  ∀ heading ∈ groupHeadingsOf items, Quoting.code.after heading = .code

/-- Whether the members that the rules of a sheet expose are confined. -/
def ExposesConfined (cls : List Char) (items : List Item) : Prop :=
  ∀ rule ∈ styleRulesOf items, ∀ m ∈ exposedMembers rule.1 rule.2, MemberConfined cls (trim m)

theorem styleRulesOf_append (a b : List Item) :
    styleRulesOf (a ++ b) = styleRulesOf a ++ styleRulesOf b := by
  induction a with
  | nil => rfl
  | cons item a ih =>
      show item.styleRules ++ styleRulesOf (a ++ b) = item.styleRules ++ styleRulesOf a ++ _
      rw [ih, List.append_assoc]

theorem groupHeadingsOf_append (a b : List Item) :
    groupHeadingsOf (a ++ b) = groupHeadingsOf a ++ groupHeadingsOf b := by
  induction a with
  | nil => rfl
  | cons item a ih =>
      show item.groupHeadings ++ groupHeadingsOf (a ++ b) = item.groupHeadings ++ groupHeadingsOf a ++ _
      rw [ih, List.append_assoc]

theorem exposesConfined_append {cls : List Char} {a b : List Item} :
    ExposesConfined cls (a ++ b) ↔ ExposesConfined cls a ∧ ExposesConfined cls b := by
  rw [ExposesConfined, styleRulesOf_append]
  exact List.forall_mem_append

theorem headingsClosed_append {a b : List Item} :
    HeadingsClosed (a ++ b) ↔ HeadingsClosed a ∧ HeadingsClosed b := by
  rw [HeadingsClosed, groupHeadingsOf_append]
  exact List.forall_mem_append

theorem headingsClosed_group {heading : List Char} {items : List Item} :
    HeadingsClosed [.group heading items] ↔
      Quoting.code.after heading = .code ∧ HeadingsClosed items := by
  show (∀ h ∈ heading :: groupHeadingsOf items ++ [], Quoting.code.after h = .code) ↔ _
  rw [List.append_nil]
  exact List.forall_mem_cons

/-! ## Faithful sheets -/

/-- Whether a reader meets confined members only in the text of a sheet exactly
    when the sheet exposes such members only. -/
def Faithful (cls : List Char) (items : List Item) : Prop :=
  ∀ h, AllBlank h →
    (MeetsConfined cls ⟨.code, 0, h⟩ (sheetText cls items) ↔ ExposesConfined cls items)

/-- Whether a reader starts a new heading after the text of a sheet. -/
def EndsAnew (cls : List Char) (items : List Item) : Prop :=
  ∀ h, AllBlank h → ∃ h', AllBlank h' ∧
    Reading.after ⟨.code, 0, h⟩ (sheetText cls items) = ⟨.code, 0, h'⟩

/-- Whether a reader stands outside strings and blocks after the text of a
    sheet. -/
def EndsOutside (cls : List Char) (items : List Item) : Prop :=
  ∀ h, AllBlank h → (Reading.after ⟨.code, 0, h⟩ (sheetText cls items)).quoting = .code ∧
    (Reading.after ⟨.code, 0, h⟩ (sheetText cls items)).depth = 0

theorem reading_allBlank {b : List Char} (hb : AllBlank b) (h : List Char) :
    Reading.after ⟨.code, 0, h⟩ b = ⟨.code, 0, h ++ b⟩ ∧ ruleHeadings ⟨.code, 0, h⟩ b = [] := by
  obtain ⟨hafter, hrules⟩ := reading_flat (levelAfter_allBlank skipsBlanks_braces hb .code 0) h
  rw [Quoting.code_after_allBlank hb] at hafter
  exact ⟨hafter, hrules⟩

theorem faithful_nil (cls : List Char) : Faithful cls [] := by
  intro h _
  exact iff_of_true (meetsConfined_of_no_brace List.not_mem_nil cls _) (List.forall_mem_nil _)

theorem endsAnew_nil (cls : List Char) : EndsAnew cls [] := by
  intro h hh
  exact ⟨h, hh, rfl⟩

/-- **Faithful sheets one after the other**, when a new heading starts in
    between. -/
theorem Faithful.append {cls : List Char} {a b : List Item} (ha : Faithful cls a)
    (hends : EndsAnew cls a) (hb : Faithful cls b) : Faithful cls (a ++ b) := by
  intro h hh
  obtain ⟨sep, hsep, htext⟩ := exists_sheetText_append cls a b
  obtain ⟨h', hh', hafter⟩ := hends h hh
  obtain ⟨hafter', hrules⟩ := reading_allBlank hsep h'
  have hseparator : MeetsConfined cls ⟨.code, 0, h'⟩ sep := by
    intro heading hheading
    rw [hrules] at hheading
    cases hheading
  rw [htext, meetsConfined_append, meetsConfined_append, Reading.after_append, hafter, hafter',
    exposesConfined_append, ha h hh, hb (h' ++ sep) (allBlank_append.mpr ⟨hh', hsep⟩)]
  exact and_congr_left fun _ => and_iff_left hseparator

/-- Where a reader stands after both sheets is where it stands after the
    second. -/
theorem EndsOutside.append {cls : List Char} {a b : List Item} (ha : EndsAnew cls a)
    (hb : EndsOutside cls b) : EndsOutside cls (a ++ b) := by
  intro h hh
  obtain ⟨sep, hsep, htext⟩ := exists_sheetText_append cls a b
  obtain ⟨h', hh', hafter⟩ := ha h hh
  rw [htext, Reading.after_append, Reading.after_append, hafter, (reading_allBlank hsep h').1]
  exact hb (h' ++ sep) (allBlank_append.mpr ⟨hh', hsep⟩)

theorem EndsAnew.endsOutside {cls : List Char} {items : List Item} (h : EndsAnew cls items) :
    EndsOutside cls items := by
  intro b hb
  obtain ⟨h', -, hafter⟩ := h b hb
  rw [hafter]
  exact ⟨rfl, rfl⟩

/-! ## At-rules kept as written -/

/-- After a closed piece that is kept as written, a new heading starts. -/
theorem after_closed {v : List Char} {n : Nat} {c : Char} (hv : Quoting.code.after v = .code)
    (hlevel : levelAfter braces .code 0 v = some n) (hc : braces n c = none) (h : List Char) :
    Reading.after ⟨.code, 0, h⟩ (v ++ [c]) = ⟨.code, 0, []⟩ := by
  obtain ⟨hquoting, hdepth⟩ := reading_within (Nat.le_refl 0) hlevel h
  rw [hv] at hquoting
  rw [Reading.after_append]
  rcases braces_eq_none_iff.mp hc with ⟨rfl, hn⟩ | ⟨rfl, rfl⟩
  · exact next_close hquoting (Nat.le_trans hdepth hn)
  · exact next_semicolon hquoting (Nat.le_zero.mp hdepth)

/-- An at-rule whose block holds no style rules has no headings. -/
theorem ruleHeadings_of_atRule {v h : List Char} {n : Nat} {c : Char}
    (hlevel : levelAfter braces .code 0 v = some n) (hc : braces n c = none)
    (hat : v.head? = some '@') (hgroup : isGrouping (v ++ [c]) = false) (hh : AllBlank h) :
    ruleHeadings ⟨.code, 0, h⟩ (v ++ [c]) = [] := by
  have hlast : '{' ∉ [c] := by
    rcases braces_eq_none_iff.mp hc with ⟨rfl, -⟩ | ⟨rfl, -⟩ <;> decide
  rw [ruleHeadings_append, ruleHeadings_of_no_brace hlast, List.append_nil]
  cases n with
  | zero => exact (reading_flat hlevel h).2
  | succ n =>
      obtain ⟨x, y, rfl, hx, hflat, hy⟩ := exists_open hlevel
      cases x with
      | nil => exact absurd (Option.some.inj hat) (by decide)
      | cons d x =>
          obtain rfl : d = '@' := Option.some.inj hat
          have hname : isGrouping ('@' :: x) = false := by
            rw [List.append_assoc] at hgroup
            exact (isGrouping_stop (x := '{') (by decide) '@' x (y ++ [c])).symm.trans hgroup
          rw [ruleHeadings_of_opening hx hflat hy, isAtHeading_append hh (by decide),
            opensGroup_append hh, hname]
          rfl

/-- **A closed at-rule kept as written** is faithful. -/
theorem faithful_verbatim {cls v : List Char} {n : Nat} {c : Char}
    (hlevel : levelAfter braces .code 0 v = some n) (hc : braces n c = none)
    (hat : v.head? = some '@') (hgroup : '{' ∉ v ++ [c] ∨ isGrouping (v ++ [c]) = false) :
    Faithful cls [.verbatim (v ++ [c])] := by
  intro h hh
  have hrules : ruleHeadings ⟨.code, 0, h⟩ (v ++ [c]) = [] := by
    rcases hgroup with hbrace | hgroup
    · exact ruleHeadings_of_no_brace hbrace _
    · exact ruleHeadings_of_atRule hlevel hc hat hgroup hh
  rw [sheetText_singleton]
  show MeetsConfined cls _ (v ++ [c]) ↔ _
  rw [MeetsConfined, hrules]
  exact iff_of_true (List.forall_mem_nil _) (List.forall_mem_nil _)

/-! ## Style rules -/

section Rule

variable {cls selectors core z : List Char} {n : Nat} (hcls : IsClassName cls)
  (hflat : levelAfter braces .code 0 selectors = some 0)
  (hlevel : levelAfter braces (Quoting.code.after selectors) 0 ('{' :: core) = some n)
  (hz : z = [] ∨ z = [';'] ∧ n = 0)

include hcls hflat hlevel hz

/-- **A style rule** is faithful. -/
theorem faithful_rule : Faithful cls [.rule selectors (core ++ z)] := by
  intro h hh
  have hexposes : ExposesConfined cls [.rule selectors (core ++ z)] ↔
      ∀ m ∈ exposedMembers selectors (core ++ z), MemberConfined cls (trim m) := by
    show (∀ rule ∈ [(selectors, core ++ z)], _) ↔ _
    rw [List.forall_mem_singleton]
  rw [sheetText_singleton, scoped?_rule, hcls.scopeName_eq, hexposes]
  by_cases hempty : ((core ++ z).isEmpty || (cleanMembers selectors).isEmpty) = true
  · rw [if_pos hempty, exposedMembers, if_pos hempty]
    exact iff_of_true (meetsConfined_of_no_brace List.not_mem_nil cls _) (List.forall_mem_nil _)
  · rw [if_neg hempty]
    rw [Bool.or_eq_true, not_or, List.isEmpty_iff, List.isEmpty_iff] at hempty
    exact meetsConfined_rule hcls hflat hlevel hz hempty.1 hempty.2 hh

/-- After a style rule whose piece ended outside strings a new heading starts. -/
theorem endsAnew_rule (hcode : (Quoting.code.after selectors).after ('{' :: core) = .code)
    (hn : n ≤ 1) : EndsAnew cls [.rule selectors (core ++ z)] := by
  intro h hh
  rw [sheetText_singleton, scoped?_rule, hcls.scopeName_eq]
  split
  · exact ⟨h, hh, rfl⟩
  · exact ⟨[], allBlank_nil, after_rule hcls hflat hlevel hcode hn hz⟩

end Rule

/-! ## Grouping at-rules -/

section Group

variable {cls heading : List Char} {items : List Item} (hat : heading.head? = some '@')
  (hcode : Quoting.code.after heading = .code)
  (hflat : levelAfter braces .code 0 heading = some 0) (hgroup : isGrouping heading = true)

include hat hcode hflat hgroup

/-- A reader enters a grouping at-rule. -/
theorem reading_group {h : List Char} (hh : AllBlank h) :
    Reading.after ⟨.code, 0, h⟩ (heading ++ ['{', '\n']) = ⟨.code, 0, ['\n']⟩ ∧
      ruleHeadings ⟨.code, 0, h⟩ (heading ++ ['{', '\n']) = [] := by
  cases heading with
  | nil => cases hat
  | cons c t =>
      obtain rfl : c = '@' := Option.some.inj hat
      obtain ⟨hafter, hrules⟩ := reading_flat hflat h
      rw [hcode] at hafter
      have hopens : opensGroup (h ++ '@' :: t) = true := by
        rw [opensGroup_append hh, hgroup]
      have hstarts : isAtHeading (h ++ '@' :: t) = true := isAtHeading_append hh (by decide) t
      have hnext : Reading.next ⟨.code, 0, h ++ '@' :: t⟩ '{' = ⟨.code, 0, []⟩ := by
        rw [Reading.next_outside_open, hopens]
        rfl
      have hopened : Reading.opened ⟨.code, 0, h ++ '@' :: t⟩ '{' = [] := by
        refine if_neg fun hop => ?_
        rw [hop.2.2.2] at hstarts
        cases hstarts
      constructor
      · rw [Reading.after_append, hafter, Reading.after_cons, hnext]
        rfl
      · rw [ruleHeadings_append, hrules, hafter]
        show Reading.opened ⟨.code, 0, h ++ '@' :: t⟩ '{' ++ ruleHeadings (Reading.next _ '{') _ = []
        rw [hopened, hnext]
        rfl

/-- **A grouping at-rule** is faithful when the sheet inside is. -/
theorem faithful_group (hitems : Faithful cls items) :
    Faithful cls [.group heading items] := by
  intro h hh
  have hexposes : ExposesConfined cls [.group heading items] ↔ ExposesConfined cls items := by
    show (∀ rule ∈ styleRulesOf items ++ [], _) ↔ _
    rw [List.append_nil]
    rfl
  rw [hexposes, sheetText_group]
  split
  · rename_i hnil
    rw [← hitems h hh, hnil]
  · obtain ⟨hafter, hrules⟩ := reading_group hat hcode hflat hgroup hh
    have hstart : MeetsConfined cls ⟨.code, 0, h⟩ (heading ++ ['{', '\n']) := by
      intro member hmember
      rw [hrules] at hmember
      cases hmember
    -- neither the heading nor the last brace adds a rule
    have hclose : ∀ r, MeetsConfined cls r ['\n', '}'] := fun r =>
      meetsConfined_of_no_brace (by decide) cls r
    rw [meetsConfined_append, meetsConfined_append, hafter, ← hitems ['\n'] allBlank_newline]
    exact (and_iff_left (hclose _)).trans (and_iff_right hstart)

/-- After a grouping at-rule a new heading starts. -/
theorem endsAnew_group (hends : EndsOutside cls items) :
    EndsAnew cls [.group heading items] := by
  intro h hh
  rw [sheetText_group]
  split
  · exact ⟨h, hh, rfl⟩
  · refine ⟨[], allBlank_nil, ?_⟩
    obtain ⟨hquoting, hdepth⟩ := hends ['\n'] allBlank_newline
    rw [Reading.after_append, Reading.after_append, (reading_group hat hcode hflat hgroup hh).1]
    generalize Reading.after ⟨.code, 0, ['\n']⟩ (sheetText cls items) = r at hquoting hdepth ⊢
    obtain ⟨q, d, inner⟩ := r
    obtain rfl : q = .code := hquoting
    obtain rfl : d = 0 := hdepth
    rfl

end Group

end PageLoom.Css
