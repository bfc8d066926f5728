import PageLoom.Proofs.Css.Blocks
import PageLoom.Proofs.Css.Faithful

/-!
# Confinement — what a page reads in a scoped stylesheet

    Every piece of a stylesheet gives a faithful item.  For a closed piece
    the reader stands at a new heading afterwards (`closed_piece`); the last
    piece may stay open, and then nothing comes after it (`open_piece`).
    The block of a grouping at-rule is shorter than its piece and a whole
    text of its own, which carries the induction on pieces.

    The result is exact (`readsWell`): a scoped stylesheet is
    confined to its class exactly when every member that one of its rules
    exposes is.  This is less than confinement without a condition, for
    scoping ends a selector list at the first brace, and that brace may
    stand inside a string.
-/

namespace PageLoom.Css

open Text

/-! ## Pieces -/

/-- What is to be shown of a text: its sheet is faithful, and a reader stands
    outside strings and blocks after it when a scan does. -/
structure ReadsWell (cls t : List Char) : Prop where
  faithful : HeadingsClosed (itemsOf t) → Faithful cls (itemsOf t)
  outside : HeadingsClosed (itemsOf t) → Whole t → EndsOutside cls (itemsOf t)

section Closed

variable {cls v before core : List Char} {n : Nat} {c : Char} (hblock : HasBlock v before core n)
  (hv : Quoting.code.after v = .code) (hc : braces n c = none)

include hblock hv hc

/-- **A style rule that closes.** -/
theorem closed_rule (hcls : IsClassName cls) :
    Faithful cls [.rule before (trim (withoutClose (core ++ [c])))] ∧
      EndsAnew cls [.rule before (trim (withoutClose (core ++ [c])))] := by
  have hq : (Quoting.code.after before).Proper := Quoting.proper_after (q := .code) trivial before
  have hflat := hblock.flat
  have hcore := hblock.level
  have hcode := hblock.code hv
  rcases braces_eq_none_iff.mp hc with ⟨rfl, hn⟩ | ⟨rfl, rfl⟩
  · rw [withoutClose_close, ← List.append_nil (trim core)]
    exact ⟨faithful_rule hcls hflat (levelAfter_brace_trim hq hcore) (Or.inl rfl),
      endsAnew_rule hcls hflat (levelAfter_brace_trim hq hcore) (Or.inl rfl)
        (code_after_brace_trim hq hcode) hn⟩
  · rw [withoutClose_semicolon, trim_concat (by decide)]
    obtain ⟨hlevel, hafter⟩ := scan_brace_trimStart hq core
    exact ⟨faithful_rule hcls hflat (hlevel.trans hcore) (Or.inr ⟨rfl, rfl⟩),
      endsAnew_rule hcls hflat (hlevel.trans hcore) (Or.inr ⟨rfl, rfl⟩) (hafter.trans hcode)
        (Nat.zero_le 1)⟩

/-- **A grouping at-rule that closes** and reads well inside. -/
theorem closed_grouping
    (hgroup : (v ++ [c]).head? = some '@' ∧ isGrouping (v ++ [c]) = true)
    (ih : ReadsWell cls core)
    (hg : HeadingsClosed [.group (trim before) (itemsOf (withoutClose (core ++ [c])))]) :
    Faithful cls [.group (trim before) (itemsOf (withoutClose (core ++ [c])))] ∧
      EndsAnew cls [.group (trim before) (itemsOf (withoutClose (core ++ [c])))] := by
  obtain ⟨hheading, hinner⟩ := headingsClosed_group.mp hg
  obtain ⟨hbefore, hat, hflat, hname⟩ := hblock.heading hgroup hheading
  obtain ⟨rfl, hwhole⟩ := hblock.whole hv hc hbefore
  rw [withoutClose_close] at hinner ⊢
  exact ⟨faithful_group hat hheading hflat hname (ih.faithful hinner),
    endsAnew_group hat hheading hflat hname (ih.outside hinner hwhole)⟩

end Closed

/-- **A closed piece** is faithful, and a new heading starts after it. -/
theorem closed_piece {cls v : List Char} {n : Nat} {c : Char} (hcls : IsClassName cls)
    (hv : Quoting.code.after v = .code) (hlevel : levelAfter braces .code 0 v = some n)
    (hc : braces n c = none) (ih : ∀ t, t.length < v.length → ReadsWell cls t)
    (hg : HeadingsClosed (readItem true (v ++ [c])).toList) :
    Faithful cls (readItem true (v ++ [c])).toList ∧
      EndsAnew cls (readItem true (v ++ [c])).toList := by
  have hread := closedRead hlevel hc
  generalize readItem true (v ++ [c]) = item at *
  cases hread with
  | nothing => exact ⟨faithful_nil cls, endsAnew_nil cls⟩
  | verbatim hat hkind =>
      have hhead : v.head? = some '@' := by
        cases v with
        | nil =>
            obtain rfl : c = '@' := Option.some.inj hat
            cases hc
        | cons d v => exact hat
      refine ⟨faithful_verbatim hlevel hc hhead hkind, fun h _ => ⟨[], allBlank_nil, ?_⟩⟩
      rw [Option.toList_some, sheetText_singleton]
      exact after_closed hv hlevel hc h
  | group hblock hgroup =>
      exact closed_grouping hblock hv hc hgroup (ih _ hblock.length_lt) hg
  | rule hblock _ => exact closed_rule hblock hv hc hcls

/-- **An open piece** is faithful, and a reader stands outside strings and
    blocks after it when a scan does. -/
theorem open_piece {cls t : List Char} {n : Nat} (hcls : IsClassName cls)
    (hlevel : levelAfter braces .code 0 t = some n) :
    Faithful cls (readItem false t).toList ∧
      (n = 0 → Quoting.code.after t = .code → EndsOutside cls (readItem false t).toList) := by
  have hread := openRead hlevel
  generalize readItem false t = item at *
  cases hread with
  | nothing => exact ⟨faithful_nil cls, fun _ _ => (endsAnew_nil cls).endsOutside⟩
  | verbatim hbrace =>
      have htext : sheetText cls [.verbatim t] = t := sheetText_singleton cls (.verbatim t)
      constructor
      · intro h _
        show MeetsConfined cls _ (sheetText cls [.verbatim t]) ↔ _
        rw [htext]
        exact iff_of_true (meetsConfined_of_no_brace hbrace cls _) (List.forall_mem_nil _)
      · intro hn hcode h _
        subst hn
        show (Reading.after _ (sheetText cls [.verbatim t])).quoting = _ ∧ _
        rw [Option.toList_some, htext, (reading_flat hlevel h).1]
        exact ⟨hcode, rfl⟩
  | @rule before core hblock _ =>
      have hq : (Quoting.code.after before).Proper :=
        Quoting.proper_after (q := .code) trivial before
      -- the block of a rule that never closes, without the brace it may end with
      obtain ⟨z, hz⟩ := exists_withoutClose core
      have hlevel' := hblock.level
      rw [hz, ← List.cons_append] at hlevel'
      obtain ⟨m, hm, -⟩ := exists_levelAfter_of_append hlevel'
      have hrule := levelAfter_brace_trim hq hm
      rw [Option.toList_some, ← List.append_nil (trim (withoutClose core))]
      refine ⟨faithful_rule hcls hblock.flat hrule (Or.inl rfl), fun hn hcode => ?_⟩
      subst hn
      obtain rfl : m = 0 :=
        Option.some.inj (hm.symm.trans (levelAfter_zero_of_append hlevel').1)
      have hclose : (Quoting.code.after before).after ('{' :: withoutClose core) = .code :=
        code_after_withoutClose (Quoting.proper_next hq '{') (hblock.code hcode)
      exact (endsAnew_rule hcls hblock.flat hrule (Or.inl rfl) (code_after_brace_trim hq hclose)
        (Nat.zero_le 1)).endsOutside

/-- **Every text reads well.** -/
theorem readsWell {cls : List Char} (hcls : IsClassName cls) (t : List Char) :
    ReadsWell cls t := by
  induction t using pieces_induction with
  | uncut hlevel =>
      -- one open piece: the text itself
      have htrim := levelAfter_trim (q := .code) skipsBlanks_braces trivial rfl hlevel
      obtain ⟨hfaithful, houtside⟩ := open_piece hcls htrim
      rw [← itemsOf_uncut hlevel] at hfaithful houtside
      exact ⟨fun _ => hfaithful, fun _ hwhole => houtside (hwhole.level_eq_zero hlevel)
        (code_after_trim (q := .code) trivial rfl hwhole.1)⟩
  | @cut u v rest n c hu hn hc htrim hv hnv ih hrest =>
      have hitems := itemsOf_cut hu hn hc rest
      rw [htrim] at hitems
      have hpiece := closed_piece hcls hv hnv hc ih
      constructor
      · intro hg
        rw [hitems, headingsClosed_append] at hg
        obtain ⟨hfaithful, hends⟩ := hpiece hg.1
        rw [hitems]
        exact hfaithful.append hends (hrest.faithful hg.2)
      · intro hg hwhole
        rw [hitems, headingsClosed_append] at hg
        rw [hitems]
        exact (hrest.outside hg.2 (hwhole.rest hu hn hc)).append (hpiece hg.1).2

/-! ## Scoped stylesheets -/

/-- The items of a stylesheet as scoping reads them. -/
def sheetOf (css : String) : List Item :=
  itemsOf (stripComments css.toList)

/-- **Confinement**, exactly: under one class name, and when no grouping
    at-rule leaves a string open before its brace, the scoped stylesheet is
    confined to the class if and only if every member that one of its rules
    exposes is. -/
theorem confined_scope_iff {css cls : String} (hcls : IsClassName cls.toList)
    (hheadings : HeadingsClosed (sheetOf css)) :
    Confined cls.toList (scope css cls).toList ↔ ExposesConfined cls.toList (sheetOf css) := by
  have htext : (scope css cls).toList = sheetText cls.toList (sheetOf css) := by
    rw [scope, String.toList_ofList, scopeChars, hcls.scopeName_eq]
    rfl
  rw [confined_iff, htext]
  exact (readsWell hcls _).faithful hheadings [] allBlank_nil

instance (cls member : List Char) : Decidable (MemberConfined cls member) :=
  inferInstanceAs (Decidable (_ ∨ _ ∨ _))

instance (cls : List Char) (r : Reading) (t : List Char) : Decidable (MeetsConfined cls r t) :=
  @List.decidableBAll _ _ (fun _ => List.decidableBAll _ _) _

instance (items : List Item) : Decidable (HeadingsClosed items) :=
  List.decidableBAll _ _

/-- A sheet with a list of selectors inside a grouping at-rule. -/
theorem confined_scope_iff_media :
    IsClassName "p".toList ∧ HeadingsClosed (sheetOf "@media print\x7ba[x=\"(\"], b\x7bc:d\x7d\x7d") ∧
      (Confined "p".toList (scope "@media print\x7ba[x=\"(\"], b\x7bc:d\x7d\x7d" "p").toList ↔
        ExposesConfined "p".toList (sheetOf "@media print\x7ba[x=\"(\"], b\x7bc:d\x7d\x7d")) := by
  have hcls : IsClassName "p".toList := by decide +kernel
  have hheadings : HeadingsClosed (sheetOf "@media print\x7ba[x=\"(\"], b\x7bc:d\x7d\x7d") := by
    decide +kernel
  exact ⟨hcls, hheadings, confined_scope_iff hcls hheadings⟩

/-- **A brace in a string lets a member escape**: the second member of this
    list is not scoped. -/
theorem not_confined_scope_of_quoted_brace :
    ¬Confined "p".toList (scope "a[x=\"\x7b\"], b\x7bx:1\x7d" "p").toList := by
  rw [confined_iff]
  decide +kernel

/-- Headings must close their strings: here a string that opens in a heading
    makes the first inner rule escape. -/
theorem not_confined_scope_of_quoted_heading :
    ¬Confined "p".toList (scope "@media \"\x7b\" \x7ba\x7bb:c\x7d\x7d" "p").toList := by
  rw [confined_iff]
  decide +kernel

end PageLoom.Css
