import PageLoom.Proofs.Css.Appended
import PageLoom.Proofs.Css.Nesting

/-!
# Self-contained stylesheets — what scoping leaves of a sheet's braces

    Scoping writes a rule as its selectors and its block between braces, and
    keeps at-rules; it cuts rules at their first brace, even one in a string,
    and closes one block of a rule that never closes.  So the scoped sheet is
    self-contained exactly when these parts are (`keepsBraces`).

    Every piece but the last one tells whether it is self-contained
    (`tellsParts_closed`).  The last one may be open, and nothing comes after
    it (`open_piece_keepsBraces`).
-/

namespace PageLoom.Css

open Text

/-! ## Scoped selectors -/

section Rule

variable {name : List Char} (hname : Unseen name)

include hname

theorem unseen_scopeName : Unseen (scopeName name) := by
  intro c hc
  obtain ⟨a, b, -, -, hsplit, -⟩ := exists_trim name
  have hmem : c ∈ trim name := (List.dropWhile_sublist _).subset hc
  refine hname c ?_
  rw [hsplit]
  exact List.mem_append_left _ (List.mem_append_right _ hmem)

/-- **A scoped member** is like the member. -/
theorem alike_scopeMember (m : List Char) : Alike (scopeMember name m) m := by
  have hdot : Unseen ('.' :: name) := List.forall_mem_cons.mpr ⟨by decide, hname⟩
  rcases scopeMember_cases name m with ⟨-, hself⟩ | ⟨-, ⟨rest, rfl, hscoped⟩ | ⟨-, hscoped⟩⟩
  · rw [hself]
    exact .refl m
  · rw [hscoped]
    exact (Alike.lead hdot rest).trans (Alike.lead (by decide) rest).symm
  · rw [hscoped, List.append_cons]
    exact Alike.lead (hdot.append (by decide)) m

/-- **A scoped selector list** is like its members. -/
theorem alike_joinMembers {ms : List (List Char)} (h : Joinable ms) :
    Alike (joinMembers (ms.map (scopeMember name))) (joinMembers ms) := by
  induction ms with
  | nil => exact .refl _
  | cons m ms ih =>
      have hm := alike_scopeMember hname m
      cases ms with
      | nil =>
          rw [List.map_singleton, joinMembers_singleton, joinMembers_singleton]
          exact hm
      | cons m' ms =>
          obtain ⟨hcode, -, hms⟩ := h
          have hjoint : ∀ t, Alike (',' :: ' ' :: t) t := Alike.lead (a := [',', ' ']) (by decide)
          rw [List.map_cons, List.map_cons, joinMembers_cons_cons, joinMembers_cons_cons]
          exact hm.append hcode ((hjoint _).trans ((ih hms).trans (hjoint _).symm))

/-- **A scoped rule** is like the rule. -/
theorem alike_rule {selectors : List Char} (hflat : levelAfter braces .code 0 selectors = some 0)
    (rest : List Char) :
    Alike (joinMembers ((cleanMembers selectors).map (scopeMember name)) ++ '{' :: rest)
      (selectors ++ '{' :: rest) := by
  have hjoin := alike_joinMembers hname (joinable_cleanMembers selectors)
  have hselectors := nesting_of_braces hflat
  have hmembers := nesting_of_braces (braces_joinMembers hflat)
  have hbrace := fun n => levelAfter_brace_congr nesting
    (Quoting.proper_after (q := .code) trivial (joinMembers (cleanMembers selectors)))
    (Quoting.proper_after (q := .code) trivial selectors) (settle_after_joinMembers selectors)
    n rest
  refine ⟨?_, fun n => ?_⟩
  · rw [Quoting.after_append, Quoting.after_append, hjoin.1]
    exact (hbrace 0).2
  · have hn := nesting_add hselectors n
    have hn' := nesting_add hmembers n
    rw [Nat.zero_add] at hn hn'
    rw [levelAfter_append_of_some ((hjoin.2 n).trans hn'), levelAfter_append_of_some hn, hjoin.1]
    exact (hbrace n).1

end Rule

/-! ## Parts of a sheet -/

mutual
/-- What scoping writes of an item, but for the class: a style rule as its
    selectors and its block between braces, unless one of them is blank, and an
    at-rule that is kept. -/
def Item.parts : Item → List (List Char)
  | .rule selectors body =>
      if body.isEmpty || (cleanMembers selectors).isEmpty then []
      else [selectors ++ '{' :: body ++ ['}']]
  | .group _ items => partsOf items
  | .verbatim text => [text]

/-- The parts of a sheet at any depth. -/
def partsOf : List Item → List (List Char)
  | [] => []
  | item :: items => item.parts ++ partsOf items
end

/-- Whether every part of a sheet is self-contained. -/
def PartsContained (items : List Item) : Prop :=
  ∀ part ∈ partsOf items, SelfContained part

instance (items : List Item) : Decidable (PartsContained items) :=
  List.decidableBAll _ _

theorem partsOf_append (a b : List Item) : partsOf (a ++ b) = partsOf a ++ partsOf b := by
  induction a with
  | nil => rfl
  | cons item a ih =>
      show item.parts ++ partsOf (a ++ b) = item.parts ++ partsOf a ++ _
      rw [ih, List.append_assoc]

theorem partsContained_append {a b : List Item} :
    PartsContained (a ++ b) ↔ PartsContained a ∧ PartsContained b := by
  rw [PartsContained, partsOf_append]
  exact List.forall_mem_append

theorem partsOf_singleton (item : Item) : partsOf [item] = item.parts :=
  List.append_nil _

theorem partsContained_group {heading : List Char} {items : List Item} :
    PartsContained [.group heading items] ↔ PartsContained items := by
  rw [PartsContained, partsOf_singleton]
  exact Iff.rfl

theorem partsContained_verbatim {text : List Char} :
    PartsContained [.verbatim text] ↔ SelfContained text :=
  List.forall_mem_singleton

section Sheet

variable {name : List Char}

/-- The text of a sheet tells whether its parts are self-contained. -/
def TellsParts (name : List Char) (items : List Item) : Prop :=
  Tells (sheetText name items) (PartsContained items)

theorem tellsParts_nil (name : List Char) : TellsParts name [] :=
  ⟨fun _ => ⟨rfl, rfl⟩, fun h => absurd (List.forall_mem_nil _) h⟩

/-- **Sheets one after the other.** -/
theorem TellsParts.append {a b : List Item} (ha : TellsParts name a) (hb : TellsParts name b) :
    TellsParts name (a ++ b) := by
  obtain ⟨sep, hsep, htext⟩ := exists_sheetText_append name a b
  rw [TellsParts, htext, partsContained_append, ← and_true (PartsContained a)]
  have hseparator : Tells sep True :=
    ⟨fun _ => selfContained_of_allBlank hsep, fun h => absurd trivial h⟩
  exact (Tells.append ha hseparator).append hb

/-- A sheet that tells before any other. -/
theorem TellsParts.append_iff {a b : List Item} (ha : TellsParts name a)
    (hb : SelfContained (sheetText name b) ↔ PartsContained b) :
    SelfContained (sheetText name (a ++ b)) ↔ PartsContained (a ++ b) := by
  obtain ⟨sep, hsep, htext⟩ := exists_sheetText_append name a b
  rw [htext, List.append_assoc, partsContained_append]
  refine Tells.append_iff ha _ ?_
  rw [(selfContained_of_allBlank hsep).append_iff]
  exact hb

theorem tellsParts_verbatim {text : List Char} (h : SelfContained text ∨ Sinks text) :
    TellsParts name [.verbatim text] := by
  have htext : sheetText name [.verbatim text] = text := sheetText_singleton name (.verbatim text)
  rw [TellsParts, htext, partsContained_verbatim]
  exact (Alike.refl text).tells h

/-- **A grouping at-rule** tells what the sheet inside tells. -/
theorem tellsParts_group {heading : List Char} {items : List Item}
    (hheading : SelfContained heading) (h : TellsParts name items) :
    TellsParts name [.group heading items] := by
  rw [TellsParts, sheetText_group, partsContained_group]
  split
  · rename_i hnil
    rw [TellsParts, hnil] at h
    exact h
  · exact Tells.block hheading h

section Rule

variable (hname : Unseen name) {selectors body : List Char}
  (hflat : levelAfter braces .code 0 selectors = some 0)

include hname hflat

/-- **A style rule** is self-contained in the scoped sheet when it is as it was
    cut. -/
theorem selfContained_rule_iff :
    SelfContained (sheetText name [.rule selectors body]) ↔
      PartsContained [.rule selectors body] := by
  rw [sheetText_singleton, scoped?_rule, PartsContained, partsOf_singleton, Item.parts]
  split
  · exact iff_of_true ⟨rfl, rfl⟩ (List.forall_mem_nil _)
  · rw [List.forall_mem_singleton, Option.getD_some, List.append_assoc, List.append_assoc,
      List.cons_append]
    exact (alike_rule (unseen_scopeName hname) hflat _).selfContained_iff

/-- **A style rule whose block leaves one brace open at most**, its own one
    included. -/
theorem tellsParts_rule {n : Nat}
    (hlevel : levelAfter nesting (Quoting.code.after selectors) 0 ('{' :: body) = some n)
    (hcode : (Quoting.code.after selectors).after ('{' :: body) = .code) (hn : n ≤ 1) :
    TellsParts name [.rule selectors body] := by
  have hopen : levelAfter nesting .code 0 (selectors ++ '{' :: body) = some n := by
    rw [levelAfter_append_of_some (nesting_of_braces hflat), hlevel]
  have hrule : SelfContained (selectors ++ '{' :: body ++ ['}']) ∨
      Sinks (selectors ++ '{' :: body ++ ['}']) :=
    closed_or_sinks ((Quoting.after_append _ _ _).trans hcode) hopen hn
  rw [TellsParts, sheetText_singleton, scoped?_rule, PartsContained, partsOf_singleton, Item.parts]
  split
  · exact ⟨fun _ => ⟨rfl, rfl⟩, fun h => absurd (List.forall_mem_nil _) h⟩
  · rw [List.append_assoc, List.cons_append] at hrule
    rw [List.forall_mem_singleton, Option.getD_some, List.append_assoc, List.append_assoc,
      List.cons_append]
    exact (alike_rule (unseen_scopeName hname) hflat _).tells hrule

end Rule

end Sheet

/-! ## Pieces -/

/-- What is to be shown of a text: its scoped sheet is self-contained exactly
    when its parts are, and tells so inside a block. -/
structure KeepsBraces (name t : List Char) : Prop where
  contained : HeadingsClosed (itemsOf t) →
    (SelfContained (sheetText name (itemsOf t)) ↔ PartsContained (itemsOf t))
  tells : HeadingsClosed (itemsOf t) → Whole t → TellsParts name (itemsOf t)

section Closed

variable {name v before core : List Char} {n : Nat} {c : Char} (hblock : HasBlock v before core n)
  (hv : Quoting.code.after v = .code) (hc : braces n c = none)

include hblock hv hc

/-- **A style rule that closes.** -/
theorem tellsParts_closed_rule (hname : Unseen name) :
    TellsParts name [.rule before (trim (withoutClose (core ++ [c])))] := by
  have hq : (Quoting.code.after before).Proper := Quoting.proper_after (q := .code) trivial before
  have hcode := hblock.code hv
  rcases braces_eq_none_iff.mp hc with ⟨rfl, hn⟩ | ⟨rfl, rfl⟩
  · rw [withoutClose_close]
    exact tellsParts_rule hname hblock.flat
      (nesting_of_braces (levelAfter_brace_trim hq hblock.level))
      (code_after_brace_trim hq hcode) hn
  · -- only a string can hold the brace of a rule that ends in a semicolon
    rw [withoutClose_semicolon, trim_concat (by decide)]
    obtain ⟨hlevel, hafter⟩ := scan_brace_trimStart hq core
    have hends := hafter.trans hcode
    refine tellsParts_rule hname hblock.flat (n := 0) ?_ ?_ (Nat.zero_le 1)
    · rw [← List.cons_append,
        levelAfter_append_of_some (nesting_of_braces (hlevel.trans hblock.level)), hends]
      rfl
    · rw [← List.cons_append, Quoting.after_append, hends]
      rfl

/-- **A grouping at-rule that closes** and keeps the braces of its sheet. -/
theorem tellsParts_closed_group
    (hgroup : (v ++ [c]).head? = some '@' ∧ isGrouping (v ++ [c]) = true)
    (ih : KeepsBraces name core)
    (hg : HeadingsClosed [.group (trim before) (itemsOf (withoutClose (core ++ [c])))]) :
    TellsParts name [.group (trim before) (itemsOf (withoutClose (core ++ [c])))] := by
  obtain ⟨hheading, hinner⟩ := headingsClosed_group.mp hg
  obtain ⟨hbefore, -, hflat, -⟩ := hblock.heading hgroup hheading
  obtain ⟨rfl, hwhole⟩ := hblock.whole hv hc hbefore
  rw [withoutClose_close] at hinner ⊢
  exact tellsParts_group ⟨hheading, nesting_of_braces hflat⟩ (ih.tells hinner hwhole)

end Closed

/-- **A closed piece** tells whether its parts are self-contained. -/
theorem tellsParts_closed {name v : List Char} {n : Nat} {c : Char} (hname : Unseen name)
    (hv : Quoting.code.after v = .code) (hlevel : levelAfter braces .code 0 v = some n)
    (hc : braces n c = none) (ih : ∀ t, t.length < v.length → KeepsBraces name t)
    (hg : HeadingsClosed (readItem true (v ++ [c])).toList) :
    TellsParts name (readItem true (v ++ [c])).toList := by
  have hread := closedRead hlevel hc
  generalize readItem true (v ++ [c]) = item at *
  cases hread with
  | nothing => exact tellsParts_nil name
  | verbatim _ _ =>
      refine tellsParts_verbatim ?_
      have hnesting := nesting_of_braces hlevel
      rcases braces_eq_none_iff.mp hc with ⟨rfl, hn⟩ | ⟨rfl, rfl⟩
      · exact closed_or_sinks hv hnesting hn
      · refine Or.inl ((SelfContained.append_iff ⟨hv, hnesting⟩ [';']).mpr ?_)
        decide
  | group hblock hgroup =>
      exact tellsParts_closed_group hblock hv hc hgroup (ih _ hblock.length_lt) hg
  | rule hblock _ => exact tellsParts_closed_rule hblock hv hc hname

/-- **An open piece** is self-contained in the scoped sheet when it is as it was
    cut, and tells so when it ends outside strings and blocks. -/
theorem open_piece_keepsBraces {name t : List Char} {n : Nat} (hname : Unseen name)
    (hlevel : levelAfter braces .code 0 t = some n) :
    (SelfContained (sheetText name (readItem false t).toList) ↔
        PartsContained (readItem false t).toList) ∧
      (n = 0 → Quoting.code.after t = .code → TellsParts name (readItem false t).toList) := by
  have hread := openRead hlevel
  generalize readItem false t = item at *
  cases hread with
  | nothing =>
      exact ⟨iff_of_true ⟨rfl, rfl⟩ (List.forall_mem_nil _), fun _ _ => tellsParts_nil name⟩
  | verbatim _ =>
      have htext : sheetText name [.verbatim t] = t := sheetText_singleton name (.verbatim t)
      refine ⟨?_, fun hn hcode => ?_⟩
      · rw [Option.toList_some, htext]
        exact partsContained_verbatim.symm
      · subst hn
        exact tellsParts_verbatim (Or.inl ⟨hcode, nesting_of_braces hlevel⟩)
  | @rule before core hblock _ =>
      have hq : (Quoting.code.after before).Proper :=
        Quoting.proper_after (q := .code) trivial before
      refine ⟨selfContained_rule_iff hname hblock.flat, fun hn hcode => ?_⟩
      subst hn
      -- the block of a rule that never closes, without the brace it may end with
      obtain ⟨z, hz⟩ := exists_withoutClose core
      have hlevel' := hblock.level
      rw [hz, ← List.cons_append] at hlevel'
      have hclosed := (levelAfter_zero_of_append hlevel').1
      have hclose : (Quoting.code.after before).after ('{' :: withoutClose core) = .code :=
        code_after_withoutClose (Quoting.proper_next hq '{') (hblock.code hcode)
      exact tellsParts_rule hname hblock.flat (nesting_of_braces (levelAfter_brace_trim hq hclosed))
        (code_after_brace_trim hq hclose) (Nat.zero_le 1)

/-- **Every text keeps its braces.** -/
theorem keepsBraces {name : List Char} (hname : Unseen name) (t : List Char) :
    KeepsBraces name t := by
  induction t using pieces_induction with
  | uncut hlevel =>
      -- one open piece: the text itself
      have htrim := levelAfter_trim (q := .code) skipsBlanks_braces trivial rfl hlevel
      obtain ⟨hcontained, htells⟩ := open_piece_keepsBraces hname htrim
      rw [← itemsOf_uncut hlevel] at hcontained htells
      exact ⟨fun _ => hcontained, fun _ hwhole => htells (hwhole.level_eq_zero hlevel)
        (code_after_trim (q := .code) trivial rfl hwhole.1)⟩
  | @cut u v rest n c hu hn hc htrim hv hnv ih hrest =>
      have hitems := itemsOf_cut hu hn hc rest
      rw [htrim] at hitems
      have hpiece := tellsParts_closed hname hv hnv hc ih
      constructor
      · intro hg
        rw [hitems, headingsClosed_append] at hg
        rw [hitems]
        exact (hpiece hg.1).append_iff (hrest.contained hg.2)
      · intro hg hwhole
        rw [hitems, headingsClosed_append] at hg
        rw [hitems]
        exact (hpiece hg.1).append (hrest.tells hg.2 (hwhole.rest hu hn hc))

end PageLoom.Css
