import PageLoom.Proofs.Css.Comments
import PageLoom.Proofs.Css.Confinement

/-!
# Appended stylesheets — scoping one sheet after another

    A sheet that ends with a whole piece leaves every scan where it started:
    outside comments and strings, with no brace open and nothing read since
    the last cut (`EndsWithPiece`).  Its items are then read apart from
    whatever follows (`itemsOf_append`), and the scoped texts of both sheets
    stand one after the other with a line end between them (`scope_append`).
-/

namespace PageLoom.Css

open Text

/-! ## Ends of pieces -/

/-- **A sheet that ends with a whole piece**: it ends outside comments and
    strings, and but for white space its last character without comments is a
    closing brace or a semicolon with no brace open after it, if there is one. -/
structure EndsWithPiece (css : List Char) : Prop where
  outside : Stripping.after (.text .code) css = .text .code
  ended : ∀ c, (trimEnd (stripComments css)).getLast? = some c →
    (c = '}' ∨ c = ';') ∧ openAfter '{' '}' .code 0 (trimEnd (stripComments css)) = 0

instance (css : List Char) : Decidable (EndsWithPiece css) :=
  have : Decidable (∀ c ∈ (trimEnd (stripComments css)).getLast?,
      (c = '}' ∨ c = ';') ∧ openAfter '{' '}' .code 0 (trimEnd (stripComments css)) = 0) :=
    Option.decidableForallMem _
  decidable_of_iff
    (Stripping.after (.text .code) css = .text .code ∧
      ∀ c ∈ (trimEnd (stripComments css)).getLast?,
        (c = '}' ∨ c = ';') ∧ openAfter '{' '}' .code 0 (trimEnd (stripComments css)) = 0)
    ⟨fun h => ⟨h.1, h.2⟩, fun h => ⟨h.outside, h.ended⟩⟩

/-- **A text without a cut** that ends with a whole piece is blank. -/
theorem allBlank_of_uncut {t : List Char} {n : Nat} (hlevel : levelAfter braces .code 0 t = some n)
    (hcode : Quoting.code.after t = .code)
    (hended : ∀ c, (trimEnd t).getLast? = some c →
      (c = '}' ∨ c = ';') ∧ openAfter '{' '}' .code 0 (trimEnd t) = 0) : AllBlank t := by
  obtain ⟨b, hb, ht, -⟩ := exists_trimEnd t
  rcases List.eq_nil_or_concat (trimEnd t) with hnil | ⟨v, c, hv⟩
  · rw [ht, hnil]
    exact hb
  · exfalso
    rw [List.concat_eq_append] at hv
    rw [hv] at ht hended
    obtain ⟨hc, hopen⟩ := hended c List.getLast?_concat
    rw [ht, List.append_assoc] at hlevel hcode
    obtain ⟨l, hl, hrest⟩ := exists_levelAfter_of_append hlevel
    have hv' : Quoting.code.after v = .code :=
      Quoting.code_after_of_plain (by rcases hc with rfl | rfl <;> decide) hb hcode
    rw [hv'] at hrest
    -- the last character would be a cut, but here it leaves a brace open
    obtain ⟨m, hm, -⟩ := exists_levelNext hrest
    have hwhole : levelAfter braces .code 0 (v ++ [c]) = some m := by
      rw [levelAfter_append_of_some hl, hv', levelAfter_cons_of_some hm]
      rfl
    rw [openAfter_of_levelAfter hwhole] at hopen
    rw [levelNext_code] at hm
    rcases braces_cases hm with ⟨rfl, -⟩ | ⟨-, hn, rfl⟩ | ⟨-, hbrace, hsemi, rfl⟩
    · rcases hc with hc | hc <;> cases hc
    · omega
    · exact hc.elim hbrace fun hc => hsemi ⟨hc, hopen⟩

/-! ## Items -/

/-- White space before a text is not seen in its items. -/
theorem itemsOf_allBlank_append {a : List Char} (ha : AllBlank a) (t : List Char) :
    itemsOf (a ++ t) = itemsOf t := by
  have hlead : ∀ x, trim (a ++ x) = trim x := fun x => by
    have h := trim_append ha allBlank_nil x
    rwa [List.append_nil] at h
  have hskip : ∀ x, levelAfter braces .code 0 (a ++ x) = levelAfter braces .code 0 x := fun x => by
    rw [levelAfter_append_of_some (levelAfter_allBlank skipsBlanks_braces ha .code 0),
      Quoting.code_after_allBlank ha]
  cases hlevel : levelAfter braces .code 0 t with
  | some n => rw [itemsOf_uncut ((hskip t).trans hlevel), itemsOf_uncut hlevel, hlead]
  | none =>
      obtain ⟨u, c, rest, m, rfl, hu, hm, hc⟩ := exists_cut hlevel
      have hcode : Quoting.code.after (a ++ u) = .code := by
        rw [Quoting.after_append, Quoting.code_after_allBlank ha, hu]
      rw [← List.append_assoc, itemsOf_cut hcode ((hskip u).trans hm) hc, itemsOf_cut hu hm hc,
        List.append_assoc, hlead]

/-- **Items of two texts**, when the first one ends with a whole piece. -/
theorem itemsOf_append {t : List Char} (hcode : Quoting.code.after t = .code)
    (hended : ∀ c, (trimEnd t).getLast? = some c →
      (c = '}' ∨ c = ';') ∧ openAfter '{' '}' .code 0 (trimEnd t) = 0) (b : List Char) :
    itemsOf (t ++ b) = itemsOf t ++ itemsOf b := by
  induction t using pieces_induction with
  | uncut hlevel =>
      have hblank := allBlank_of_uncut hlevel hcode hended
      rw [itemsOf_allBlank_append hblank, itemsOf_allBlank hblank, List.nil_append]
  | @cut u v rest m c hu hm hc _ _ _ _ hrest =>
      have hcode' : Quoting.code.after rest = .code := by
        rw [Quoting.after_append, hu] at hcode
        rcases braces_eq_none_iff.mp hc with ⟨rfl, -⟩ | ⟨rfl, -⟩ <;> exact hcode
      have hended' : ∀ d, (trimEnd rest).getLast? = some d →
          (d = '}' ∨ d = ';') ∧ openAfter '{' '}' .code 0 (trimEnd rest) = 0 := by
        intro d hd
        rw [trimEnd_append_cons (not_blank_of_cut hc), openAfter_cut hu hm hc] at hended
        refine hended d ?_
        rw [List.getLast?_append, List.getLast?_cons, hd]
        rfl
      rw [List.append_assoc, List.cons_append, itemsOf_cut hu hm hc, itemsOf_cut hu hm hc,
        hrest hcode' hended', List.append_assoc]

/-! ## Lines -/

theorem mem_joinLines {lines : List (List Char)} {line : List Char} (h : line ∈ lines) {c : Char}
    (hc : c ∈ line) : c ∈ joinLines lines := by
  induction lines with
  | nil => cases h
  | cons line' lines ih =>
      cases lines with
      | nil =>
          obtain rfl := List.mem_singleton.mp h
          rw [joinLines_singleton]
          exact hc
      | cons line'' lines =>
          rw [joinLines_cons_cons]
          rcases List.mem_cons.mp h with rfl | h
          · exact List.mem_append_left _ hc
          · exact List.mem_append_right _ (List.mem_cons_of_mem _ (ih h))

/-- What is kept as written starts with an at-sign. -/
theorem head?_of_readItem {closed : Bool} {text kept : List Char}
    (h : readItem closed text = some (.verbatim kept)) : kept.head? = some '@' := by
  rw [readItem] at h
  split at h
  · split at h
    · rename_i hat
      cases h
      exact hat
    · cases h
  · split at h
    · rename_i hat
      split at h
      · cases h
      · split at h
        · cases h
        · cases h
          exact hat
    · cases h

/-- **No item leaves a blank line.** -/
theorem exists_solid_of_scoped? {name t text : List Char} {item : Item} (hitem : item ∈ itemsOf t)
    (h : item.scoped? name = some text) : ∃ c ∈ text, isBlank c = false := by
  cases item with
  | verbatim kept =>
      rw [itemsOf_eq, List.mem_filterMap] at hitem
      obtain ⟨s, -, hread⟩ := hitem
      obtain rfl : kept = text := by
        rw [Item.scoped?] at h
        exact Option.some.inj h
      exact ⟨'@', List.mem_of_head? (head?_of_readItem hread), by decide⟩
  | rule selectors body =>
      rw [scoped?_rule] at h
      split at h
      · cases h
      · cases h
        exact ⟨'{', by simp, by decide⟩
  | group heading items =>
      rw [scoped?_group] at h
      split at h
      · cases h
      · cases h
        exact ⟨'{', by simp, by decide⟩

theorem exists_of_mem_scopedItems {name text : List Char} {items : List Item}
    (h : text ∈ scopedItems name items) : ∃ item ∈ items, item.scoped? name = some text := by
  induction items with
  | nil => exact nomatch h
  | cons item items ih =>
      rw [scopedItems_cons] at h
      rcases List.mem_append.mp h with h | h
      · exact ⟨item, List.mem_cons_self, Option.mem_toList.mp h⟩
      · obtain ⟨item', hitem, hscoped⟩ := ih h
        exact ⟨item', List.mem_cons_of_mem _ hitem, hscoped⟩

/-- **A scoped sheet is blank** only when no item leaves a line. -/
theorem scopedItems_of_allBlank {name t : List Char}
    (h : AllBlank (sheetText name (itemsOf t))) : scopedItems name (itemsOf t) = [] := by
  refine List.eq_nil_iff_forall_not_mem.mpr fun text htext => ?_
  obtain ⟨item, hitem, hscoped⟩ := exists_of_mem_scopedItems htext
  obtain ⟨c, hc, hsolid⟩ := exists_solid_of_scoped? hitem hscoped
  rw [h c (mem_joinLines htext hc)] at hsolid
  cases hsolid

/-! ## Scoping -/

theorem scope_eq (css name : String) :
    scope css name = String.ofList (sheetText (scopeName name.toList) (sheetOf css)) := rfl

theorem scope_eq_empty_iff {css name : String} :
    scope css name = "" ↔ scopedItems (scopeName name.toList) (sheetOf css) = [] := by
  rw [scope_eq, String.ofList_eq_empty_iff]
  constructor
  · intro h
    refine scopedItems_of_allBlank ?_
    show AllBlank (sheetText _ (sheetOf css))
    rw [h]
    exact allBlank_nil
  · intro h
    rw [sheetText, h]
    rfl

/-- A scoped sheet that is blank is empty. -/
theorem scope_eq_empty_of_blank {css name : String} (h : isBlankText (scope css name) = true) :
    scope css name = "" := by
  rw [isBlankText, scope_eq, String.toList_ofList, allBlank_iff_all] at h
  exact scope_eq_empty_iff.mpr (scopedItems_of_allBlank h)

/-- The items of two sheets, when the first one ends with a whole piece. -/
theorem sheetOf_append {a : String} (h : EndsWithPiece a.toList) (b : String) :
    sheetOf (a ++ b) = sheetOf a ++ sheetOf b := by
  have hlast : (stripComments a.toList).getLast? ≠ some '/' := by
    intro hslash
    obtain ⟨v, hv⟩ := List.getLast?_eq_some_iff.mp hslash
    have htrim : trimEnd (stripComments a.toList) = v ++ ['/'] := by
      rw [hv, trimEnd_append_cons (by decide)]
      rfl
    have hended := (h.ended '/' (by rw [htrim, List.getLast?_concat])).1
    rcases hended with hbrace | hsemi
    · cases hbrace
    · cases hsemi
  rw [sheetOf, String.toList_append, stripComments, stripFrom_append h.outside hlast]
  exact itemsOf_append (Stripping.quoting_after h.outside) h.ended _

/-- **Scoping goes sheet by sheet**: after a sheet that ends with a whole piece,
    the next one is scoped as if it stood alone. -/
theorem scope_append {a : String} (h : EndsWithPiece a.toList) (b name : String) :
    scope (a ++ b) name =
      if scope a name = "" then scope b name
      else if scope b name = "" then scope a name
      else scope a name ++ "\n" ++ scope b name := by
  simp only [scope_eq_empty_iff]
  rw [scope_eq, scope_eq a, scope_eq b, sheetOf_append h, sheetText, scopedItems_append]
  split
  · rename_i ha
    rw [ha]
    rfl
  · rename_i ha
    split
    · rename_i hb
      rw [hb, List.append_nil]
      rfl
    · rename_i hb
      rw [joinLines_append ha hb, String.ofList_append, String.ofList_cons, ← String.append_assoc]
      rfl

/-- A sheet that ends with a comment, and one whose rule never closes. -/
theorem scope_append_media :
    EndsWithPiece "@media x\x7ba\x7bb:\"\x7d\"\x7d\x7d ;/**/ ".toList ∧
      scope ("@media x\x7ba\x7bb:\"\x7d\"\x7d\x7d ;/**/ " ++ "c/*d*/\x7be:f") "p" =
        scope "@media x\x7ba\x7bb:\"\x7d\"\x7d\x7d ;/**/ " "p" ++ "\n" ++
          scope "c/*d*/\x7be:f" "p" := by
  have hended : EndsWithPiece "@media x\x7ba\x7bb:\"\x7d\"\x7d\x7d ;/**/ ".toList := by
    decide +kernel
  refine ⟨hended, ?_⟩
  rw [scope_append hended, if_neg (by decide +kernel), if_neg (by decide +kernel)]

end PageLoom.Css
