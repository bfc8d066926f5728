import PageLoom.Proofs.Css.SelfContained

/-!
# Well nested stylesheets — scoped sheets that close what they open

    What goes wrong with braces when a sheet is scoped starts in sheets that
    do not close what they open, or with an opening brace in a string.  A
    sheet without either is well nested, so are its pieces and the sheets
    inside its grouping at-rules (`WellNested.cut`, `WellNested.block`), and
    so its parts are self-contained (`closes_itemsOf`).

    Whether the scoped sheet is self-contained is up to the parts alone, well
    nested or not (`selfContained_scope_iff`).
-/

namespace PageLoom.Css

open Text

/-! ## Opening braces in strings -/

/-- Whether every opening brace of a text stands outside strings. -/
def OpensOutside : Quoting → List Char → Prop
  | _, [] => True
  | q, c :: t => (c = '{' → q = .code) ∧ OpensOutside (q.next c) t

instance decidableOpensOutside : ∀ q t, Decidable (OpensOutside q t)
  | _, [] => isTrue trivial
  | q, c :: t =>
      have := decidableOpensOutside (q.next c) t
      inferInstanceAs (Decidable (_ ∧ _))

theorem opensOutside_append {q : Quoting} {a b : List Char} :
    OpensOutside q (a ++ b) ↔ OpensOutside q a ∧ OpensOutside (q.after a) b := by
  induction a generalizing q with
  | nil => exact (and_iff_right trivial).symm
  | cons c a ih =>
      rw [List.cons_append, OpensOutside, OpensOutside, ih, and_assoc]
      exact Iff.rfl

/-- A **well nested** text is self-contained and has no opening brace in a
    string. -/
structure WellNested (t : List Char) : Prop where
  contained : SelfContained t
  outside : OpensOutside .code t

instance (t : List Char) : Decidable (WellNested t) :=
  decidable_of_iff (SelfContained t ∧ OpensOutside .code t)
    ⟨fun h => ⟨h.1, h.2⟩, fun h => ⟨h.contained, h.outside⟩⟩

/-! ## Parts of well nested texts -/

/-- One level up, segmentation counts as for the text alone. -/
theorem levelAfter_succ_iff {q : Quoting} {n m : Nat} {t : List Char} :
    levelAfter braces q (n + 1) t = some (m + 1) ↔ levelAfter nesting q n t = some m := by
  induction t generalizing q n with
  | nil =>
      show some (n + 1) = some (m + 1) ↔ some n = some m
      simp
  | cons c t ih =>
      have hstep : levelNext braces q (n + 1) c = (levelNext nesting q n c).map (· + 1) := by
        by_cases hq : q = .code
        · subst hq
          rw [levelNext_code, levelNext_code, braces, nesting]
          by_cases hopen : c = '{'
          · rw [if_pos hopen, if_pos hopen]
            rfl
          · rw [if_neg hopen, if_neg hopen]
            by_cases hclose : c = '}'
            · rw [if_pos hclose, if_pos hclose]
              cases n with
              | zero => rfl
              | succ n => rfl
            · rw [if_neg hclose, if_neg hclose, if_neg fun h => Nat.succ_ne_zero n h.2]
              rfl
        · rw [levelNext_of_ne hq, levelNext_of_ne hq]
          rfl
      show (levelNext braces q (n + 1) c).bind _ = _ ↔ (levelNext nesting q n c).bind _ = _
      rw [hstep]
      cases levelNext nesting q n c with
      | none => exact iff_of_false (by rintro ⟨⟩) (by rintro ⟨⟩)
      | some l => exact ih

/-- The inside of a block is a self-contained text. -/
theorem whole_iff_selfContained {t : List Char} : Whole t ↔ SelfContained t :=
  and_congr_right fun _ => levelAfter_succ_iff

namespace WellNested

variable {t : List Char}

/-- White space at the ends does not matter. -/
theorem trim (h : WellNested t) : WellNested (Text.trim t) where
  contained := ⟨code_after_trim (q := .code) trivial rfl h.contained.1,
    levelAfter_trim (q := .code) skipsBlanks_nesting trivial rfl h.contained.2⟩
  outside := by
    obtain ⟨a, b, ha, -, ht, -⟩ := exists_trim t
    have houtside := h.outside
    rw [ht, List.append_assoc, opensOutside_append, opensOutside_append,
      Quoting.code_after_allBlank ha] at houtside
    exact houtside.2.1

/-- **Both sides of a cut** are well nested. -/
theorem cut {u rest : List Char} {n : Nat} {c : Char} (h : WellNested (u ++ c :: rest))
    (hu : Quoting.code.after u = .code) (hn : levelAfter braces .code 0 u = some n)
    (hc : braces n c = none) : WellNested (u ++ [c]) ∧ WellNested rest := by
  have hrest : SelfContained rest := whole_iff_selfContained.mp
    ((whole_iff_selfContained.mpr h.contained).rest hu hn hc)
  obtain ⟨⟨hcode, hlevel⟩, houtside⟩ := h
  have hcut : Quoting.code.after (u ++ [c]) = .code := by
    rw [Quoting.after_append, hu]
    rcases braces_eq_none_iff.mp hc with ⟨rfl, -⟩ | ⟨rfl, -⟩ <;> rfl
  rw [List.append_cons] at hlevel houtside
  rw [opensOutside_append, hcut] at houtside
  obtain ⟨l, hl, hafter⟩ := exists_levelAfter_of_append hlevel
  rw [hcut, hrest.level] at hafter
  obtain rfl : l = 0 := Option.some.inj hafter
  exact ⟨⟨⟨hcut, hl⟩, houtside.1⟩, ⟨hrest, houtside.2⟩⟩

/-- **A block**: before it the text is outside strings, and inside it is well
    nested. -/
theorem block {v before core : List Char} {n : Nat} {c : Char} (h : WellNested (v ++ [c]))
    (hblock : HasBlock v before core n) (hv : Quoting.code.after v = .code)
    (hc : braces n c = none) :
    Quoting.code.after before = .code ∧ c = '}' ∧ WellNested core := by
  have houtside := h.outside
  rw [hblock.split_concat, opensOutside_append] at houtside
  have hbefore := houtside.2.1 rfl
  have hinside := houtside.2.2
  rw [hbefore] at hinside
  obtain ⟨hclose, hwhole⟩ := hblock.whole hv hc hbefore
  exact ⟨hbefore, hclose, whole_iff_selfContained.mp hwhole,
    (opensOutside_append.mp hinside).1⟩

end WellNested

/-- A self-contained text between braces is self-contained. -/
theorem SelfContained.braced {t : List Char} (h : SelfContained t) :
    SelfContained ('{' :: t ++ ['}']) := by
  constructor
  · rw [Quoting.after_append]
    show (Quoting.code.after t).after ['}'] = .code
    rw [h.1]
    rfl
  · show levelAfter nesting .code 1 (t ++ ['}']) = some 0
    rw [levelAfter_append_of_some (h.level 1), h.1]
    rfl

/-! ## Sheets -/

/-- A sheet whose headings close their strings and whose parts are
    self-contained. -/
def Closes (items : List Item) : Prop :=
  HeadingsClosed items ∧ PartsContained items

theorem closes_nil : Closes [] :=
  ⟨List.forall_mem_nil _, List.forall_mem_nil _⟩

theorem closes_append {a b : List Item} : Closes (a ++ b) ↔ Closes a ∧ Closes b := by
  rw [Closes, headingsClosed_append, partsContained_append]
  exact and_and_and_comm

theorem closes_verbatim {text : List Char} (h : SelfContained text) : Closes [.verbatim text] :=
  ⟨List.forall_mem_nil _, partsContained_verbatim.mpr h⟩

/-- **A piece that ends where it should.** -/
theorem closes_closed {v : List Char} {n : Nat} {c : Char} (h : WellNested (v ++ [c]))
    (hv : Quoting.code.after v = .code) (hlevel : levelAfter braces .code 0 v = some n)
    (hc : braces n c = none)
    (ih : ∀ t, t.length < v.length → WellNested t → Closes (itemsOf t)) :
    Closes (readItem true (v ++ [c])).toList := by
  have hread := closedRead hlevel hc
  generalize readItem true (v ++ [c]) = item at *
  cases hread with
  | nothing => exact closes_nil
  | verbatim _ _ => exact closes_verbatim h.contained
  | group hblock hgroup =>
      obtain ⟨hbefore, rfl, hcore⟩ := h.block hblock hv hc
      obtain ⟨hheadings, hparts⟩ := ih _ hblock.length_lt hcore
      rw [withoutClose_close]
      exact ⟨headingsClosed_group.mpr
          ⟨code_after_trim (q := .code) trivial rfl hbefore, hheadings⟩,
        partsContained_group.mpr hparts⟩
  | rule hblock _ =>
      obtain ⟨hbefore, rfl, hcore⟩ := h.block hblock hv hc
      refine ⟨List.forall_mem_nil _, ?_⟩
      rw [withoutClose_close, Option.toList_some, PartsContained, partsOf_singleton, Item.parts]
      split
      · exact List.forall_mem_nil _
      · rw [List.forall_mem_singleton, List.append_assoc,
          SelfContained.append_iff ⟨hbefore, nesting_of_braces hblock.flat⟩]
        exact hcore.trim.contained.braced

/-- **An open piece** has no block, for its brace would stay open. -/
theorem closes_open {t : List Char} {n : Nat} (h : WellNested t)
    (hlevel : levelAfter braces .code 0 t = some n) : Closes (readItem false t).toList := by
  have hread := openRead hlevel
  generalize readItem false t = item at *
  cases hread with
  | nothing => exact closes_nil
  | verbatim _ => exact closes_verbatim h.contained
  | @rule before core hblock _ =>
      have houtside := h.outside
      rw [hblock.split, opensOutside_append] at houtside
      have hopen := hblock.level
      rw [houtside.2.1 rfl] at hopen
      have hn : 1 ≤ n := one_le_levelAfter (Nat.le_refl 1) hopen
      have hzero := nesting_of_braces hlevel
      rw [h.contained.2] at hzero
      obtain rfl : 0 = n := Option.some.inj hzero
      exact absurd hn (by decide)

/-- **Every well nested text.** -/
theorem closes_itemsOf {t : List Char} (h : WellNested t) : Closes (itemsOf t) := by
  induction t using pieces_induction with
  | uncut hlevel =>
      rw [itemsOf_uncut hlevel]
      exact closes_open h.trim
        (levelAfter_trim (q := .code) skipsBlanks_braces trivial rfl hlevel)
  | @cut u v rest n c hu hn hc htrim hv hnv ih hrest =>
      obtain ⟨hpiece, hafter⟩ := h.cut hu hn hc
      have hpiece' := hpiece.trim
      rw [htrim] at hpiece'
      rw [itemsOf_cut hu hn hc, htrim, closes_append]
      exact ⟨closes_closed hpiece' hv hnv hc ih, hrest hafter⟩

/-! ## Scoping -/

/-- **A scoped sheet is self-contained** exactly when its parts are, for a class
    name without quotes and braces and a sheet whose grouping at-rules close
    their strings before their first brace.  A well nested sheet always is. -/
theorem selfContained_scope_iff {css name : String} (hname : Unseen name.toList) :
    (HeadingsClosed (sheetOf css) →
      (SelfContained (scope css name).toList ↔ PartsContained (sheetOf css))) ∧
    (WellNested (stripComments css.toList) → SelfContained (scope css name).toList) := by
  have hkeeps : HeadingsClosed (sheetOf css) →
      (SelfContained (scope css name).toList ↔ PartsContained (sheetOf css)) := by
    intro hheadings
    rw [scope_eq, String.toList_ofList]
    exact (keepsBraces (unseen_scopeName hname) (stripComments css.toList)).contained hheadings
  refine ⟨hkeeps, ?_⟩
  intro h
  obtain ⟨hheadings, hparts⟩ := closes_itemsOf h
  exact (hkeeps hheadings).mpr hparts

/-- A sheet with braces in strings and a rule that never closes, and a well nested
    one. -/
theorem selfContained_scope_open :
    Unseen "p".toList ∧
      HeadingsClosed
        (sheetOf "@media x\x7ba[b=\"\x7b\"]\x7bc:'\x7d'\x7d\x7d @y z;d/*\x7b*/\x7be:f") ∧
      SelfContained (scope
        "@media x\x7ba[b=\"\x7b\"]\x7bc:'\x7d'\x7d\x7d @y z;d/*\x7b*/\x7be:f" "p").toList ∧
      WellNested (stripComments "@media x\x7ba\x7bb:'\x7d'\x7d\x7d c\x7bd\x7be:f\x7d\x7d".toList) ∧
      SelfContained (scope "@media x\x7ba\x7bb:'\x7d'\x7d\x7d c\x7bd\x7be:f\x7d\x7d" "p").toList := by
  have hname : Unseen "p".toList := by decide +kernel
  have hheadings : HeadingsClosed
      (sheetOf "@media x\x7ba[b=\"\x7b\"]\x7bc:'\x7d'\x7d\x7d @y z;d/*\x7b*/\x7be:f") := by
    decide +kernel
  have hnested : WellNested
      (stripComments "@media x\x7ba\x7bb:'\x7d'\x7d\x7d c\x7bd\x7be:f\x7d\x7d".toList) := by
    decide +kernel
  exact ⟨hname, hheadings, ((selfContained_scope_iff hname).1 hheadings).mpr (by decide +kernel),
    hnested, (selfContained_scope_iff hname).2 hnested⟩

/-- **What is not self-contained**: a rule cut at a brace in a string, blocks and
    strings that stay open in a rule, and an at-rule with a stray brace. -/
theorem not_selfContained_scope :
    ¬SelfContained (scope "a[x=\"\x7b\"];" "p").toList ∧
      ¬SelfContained (scope "a\x7bb\x7bc:d" "p").toList ∧
      ¬SelfContained (scope "a\x7bb:\"c" "p").toList ∧
      ¬SelfContained (scope "@x \x7d" "p").toList := by
  decide +kernel

end PageLoom.Css
