import PageLoom.Entity.Layout
import PageLoom.Entity.Override
import PageLoom.Entity.Template
import PageLoom.Proofs.Condition.Settled

/-!
# Settled entities — records survive saving

    What a lenient column understands has a stored form that the column takes
    back: an item, a list of items, an identifier, a flag, a set of rules.  With
    its columns every record settles, one theorem for each kind.
-/

namespace PageLoom

open Condition (RuleSet)

/-! ## Columns -/

/-- An identifier in range is taken back as it is. -/
theorem ContentItem.ofJson?_block {id : Nat} (h : id ≤ greatestId) :
    ofJson? (toJson (.block id)) = some (.block id) := by
  show (if 0 ≤ (id : Int) then some (block (min (id : Int).toNat greatestId)) else none) = _
  rw [if_pos (Int.natCast_nonneg id), Int.toNat_natCast, Nat.min_eq_left h]

/-- **What is an item is taken back**: an identifier in range, or a text that is
    none. -/
theorem ContentItem.ofJson?_toJson {value : Json} {item : ContentItem}
    (h : ofJson? value = some item) : ofJson? item.toJson = some item := by
  cases value with
  | number n =>
      cases n with
      | int k =>
          obtain ⟨-, hk⟩ := Option.ite_none_right_eq_some.mp h
          obtain rfl := Option.some.inj hk
          exact ofJson?_block (Nat.min_le_right _ _)
      | real x =>
          obtain ⟨-, hx⟩ := Option.ite_none_right_eq_some.mp h
          obtain rfl := Option.some.inj hx
          exact ofJson?_block (Nat.min_le_right _ _)
  | string text =>
      -- a text of an identifier has become a block, any other is read as it was
      obtain rfl := Option.some.inj h
      rw [ofText]
      cases hid : id? text with
      | some id =>
          have hle := (Option.filter_eq_some_iff.mp hid).2
          exact ofJson?_block (of_decide_eq_true hle)
      | none =>
          show some (ofText text) = _
          rw [ofText, hid]
  | _ => cases h

theorem ContentItem.ordered_toJson (item : ContentItem) : item.toJson.Ordered := by
  cases item with
  | block id => exact .number _
  | markup text => exact .string text

namespace Column

/-- The identifier of a value is taken back. -/
theorem id?_ofNat {value : Json} {id : Nat} (h : id? value = some id) :
    id? (.ofNat id) = some id := by
  obtain ⟨item, hitem, hblock⟩ := Option.bind_eq_some_iff.mp h
  cases item with
  | markup text => cases hblock
  | block n =>
      obtain rfl := Option.some.inj hblock
      show (ContentItem.ofJson? (ContentItem.toJson (.block n))).bind _ = _
      rw [ContentItem.ofJson?_toJson hitem]
      rfl

/-- A column of parts: what is dropped when it is first read is not there any
    more, and every part that was kept is taken back. -/
theorem filterMap_stored {α : Type} {read : Json → Option α} {store : α → Json}
    (h : ∀ value a, read value = some a → read (store a) = some a) (values : List Json) :
    ((values.filterMap read).map store).filterMap read = values.filterMap read := by
  rw [List.filterMap_map, List.filterMap_filterMap]
  refine List.filterMap_congr fun value _ => ?_
  cases hread : read value with
  | none => rfl
  | some a => exact h value a hread

/-- A content list settles with its items. -/
theorem settles_contentItems :
    Node.Settles (lenient contentItems) fun items => .array (items.map ContentItem.toJson) :=
  Node.settles_json
    (fun _ => .array (List.forall_mem_map.mpr fun item _ => item.ordered_toJson))
    fun value => filterMap_stored (fun _ _ => ContentItem.ofJson?_toJson) (items value)

/-- A list of identifiers settles with its identifiers. -/
theorem settles_ids : Node.Settles (lenient ids) fun items => .array (items.map .ofNat) :=
  Node.settles_json (fun _ => .array (List.forall_mem_map.mpr fun _ _ => .number _))
    fun value => filterMap_stored (fun _ _ => id?_ofNat) (items value)

/-- An optional identifier settles: zero is read as none and stored as null. -/
theorem settles_optionalId : Node.Settles (lenient optionalId) (.ofOption .ofNat) := by
  refine Node.settles_json ?_ ?_
  · intro id
    cases id with
    | none => exact .null
    | some n => exact .number _
  · intro value
    cases hid : optionalId value with
    | none => rfl
    | some n =>
        obtain ⟨hvalue, hne⟩ := Option.filter_eq_some_iff.mp hid
        exact Option.filter_eq_some_iff.mpr ⟨id?_ofNat hvalue, hne⟩

/-- A flag settles, whatever stood for it first. -/
theorem settles_flag : Node.Settles (lenient flag) .bool :=
  Node.settles_json .bool fun _ => rfl

/-- The column of rules settles with the rule set. -/
theorem settles_rules : Node.Settles (lenient RuleSet.ofJson) RuleSet.toJson :=
  Node.settles_json RuleSet.ordered_toJson RuleSet.ofJson_toJson

end Column

/-! ## Records

    A word without meaning has become a choice when it was first read, and every
    choice has a word of its own. -/

theorem Status.ofName_name (status : Status) : ofName status.name = status := by
  cases status <;> decide

theorem StyleScope.ofName_name (scope : StyleScope) : ofName scope.name = scope := by
  cases scope <;> decide

theorem LayoutKind.ofName_name (kind : LayoutKind) : ofName kind.name = kind := by
  cases kind <;> decide

theorem OverrideType.ofName_name (type : OverrideType) : ofName type.name = type := by
  cases type <;> decide

/-- **Blocks settle.**  Their texts are stored as they are; the scope of the
    styles and the status fall back to a word of their own. -/
theorem Block.settles : Node.Settles ofNode? toJson := by
  intro node block h
  obtain ⟨stored, hstored, stores⟩ :=
    Record.ofNode?_stored fieldNames block.toJson rfl rfl (by decide)
  obtain ⟨record, -, h⟩ := Option.bind_eq_some_iff.mp h
  obtain ⟨id, hid, h⟩ := Option.bind_eq_some_iff.mp h
  obtain ⟨name, hname, h⟩ := Option.bind_eq_some_iff.mp h
  obtain ⟨slug, hslug, h⟩ := Option.bind_eq_some_iff.mp h
  obtain ⟨html, hhtml, h⟩ := Option.bind_eq_some_iff.mp h
  obtain ⟨css, hcss, h⟩ := Option.bind_eq_some_iff.mp h
  obtain ⟨js, hjs, h⟩ := Option.bind_eq_some_iff.mp h
  obtain ⟨category, hcategory, h⟩ := Option.bind_eq_some_iff.mp h
  obtain ⟨scope, hscope, h⟩ := Option.bind_eq_some_iff.mp h
  obtain ⟨status, hstatus, h⟩ := Option.bind_eq_some_iff.mp h
  obtain rfl := Option.some.inj h
  -- each field that was read is read again from the stored record
  rw [ofNode?, hstored]
  refine stores.bind hid rfl Node.settles_natural rfl ?_
  refine stores.bind hname rfl Node.settles_text rfl ?_
  refine stores.bind hslug rfl Node.settles_text rfl ?_
  refine stores.bind hhtml rfl Node.settles_text rfl ?_
  refine stores.bind hcss rfl Node.settles_text rfl ?_
  refine stores.bind hjs rfl Node.settles_text rfl ?_
  refine stores.bind hcategory rfl Node.settles_text rfl ?_
  refine stores.bind hscope rfl (Node.settles_name fun _ => StyleScope.ofName_name _) rfl ?_
  refine stores.bind hstatus rfl (Node.settles_name fun _ => Status.ofName_name _) rfl ?_
  rfl

/-- **Layouts settle**: the kind and the status by their words, the order of the
    blocks as a list of identifiers. -/
theorem Layout.settles : Node.Settles ofNode? toJson := by
  intro node layout h
  obtain ⟨stored, hstored, stores⟩ :=
    Record.ofNode?_stored fieldNames layout.toJson rfl rfl (by decide)
  obtain ⟨record, -, h⟩ := Option.bind_eq_some_iff.mp h
  obtain ⟨id, hid, h⟩ := Option.bind_eq_some_iff.mp h
  obtain ⟨name, hname, h⟩ := Option.bind_eq_some_iff.mp h
  obtain ⟨slug, hslug, h⟩ := Option.bind_eq_some_iff.mp h
  obtain ⟨kind, hkind, h⟩ := Option.bind_eq_some_iff.mp h
  obtain ⟨usesBlocks, huses, h⟩ := Option.bind_eq_some_iff.mp h
  obtain ⟨order, horder, h⟩ := Option.bind_eq_some_iff.mp h
  obtain ⟨html, hhtml, h⟩ := Option.bind_eq_some_iff.mp h
  obtain ⟨css, hcss, h⟩ := Option.bind_eq_some_iff.mp h
  obtain ⟨js, hjs, h⟩ := Option.bind_eq_some_iff.mp h
  obtain ⟨status, hstatus, h⟩ := Option.bind_eq_some_iff.mp h
  obtain rfl := Option.some.inj h
  rw [ofNode?, hstored]
  refine stores.bind hid rfl Node.settles_natural rfl ?_
  refine stores.bind hname rfl Node.settles_text rfl ?_
  refine stores.bind hslug rfl Node.settles_text rfl ?_
  refine stores.bind hkind rfl (Node.settles_name fun _ => LayoutKind.ofName_name _) rfl ?_
  refine stores.bind huses rfl Column.settles_flag rfl ?_
  refine stores.bind horder rfl Column.settles_ids rfl ?_
  refine stores.bind hhtml rfl Node.settles_text rfl ?_
  refine stores.bind hcss rfl Node.settles_text rfl ?_
  refine stores.bind hjs rfl Node.settles_text rfl ?_
  refine stores.bind hstatus rfl (Node.settles_name fun _ => Status.ofName_name _) rfl ?_
  rfl

/-- **Overrides settle**: the type by its word, the identifiers of header and
    footer with none for zero, the content as a list of items. -/
theorem Override.settles : Node.Settles ofNode? toJson := by
  intro node o h
  obtain ⟨stored, hstored, stores⟩ :=
    Record.ofNode?_stored fieldNames o.toJson rfl rfl (by decide)
  obtain ⟨record, -, h⟩ := Option.bind_eq_some_iff.mp h
  obtain ⟨id, hid, h⟩ := Option.bind_eq_some_iff.mp h
  obtain ⟨post, hpost, h⟩ := Option.bind_eq_some_iff.mp h
  obtain ⟨type, htype, h⟩ := Option.bind_eq_some_iff.mp h
  obtain ⟨header, hheader, h⟩ := Option.bind_eq_some_iff.mp h
  obtain ⟨footer, hfooter, h⟩ := Option.bind_eq_some_iff.mp h
  obtain ⟨content, hcontent, h⟩ := Option.bind_eq_some_iff.mp h
  obtain ⟨html, hhtml, h⟩ := Option.bind_eq_some_iff.mp h
  obtain ⟨css, hcss, h⟩ := Option.bind_eq_some_iff.mp h
  obtain ⟨js, hjs, h⟩ := Option.bind_eq_some_iff.mp h
  obtain rfl := Option.some.inj h
  rw [ofNode?, hstored]
  refine stores.bind hid rfl Node.settles_natural rfl ?_
  refine stores.bind hpost rfl Node.settles_natural rfl ?_
  refine stores.bind htype rfl (Node.settles_name fun _ => OverrideType.ofName_name _) rfl ?_
  refine stores.bind hheader rfl Column.settles_optionalId rfl ?_
  refine stores.bind hfooter rfl Column.settles_optionalId rfl ?_
  refine stores.bind hcontent rfl Column.settles_contentItems rfl ?_
  refine stores.bind hhtml rfl Node.settles_text rfl ?_
  refine stores.bind hcss rfl Node.settles_text rfl ?_
  refine stores.bind hjs rfl Node.settles_text rfl ?_
  rfl

/-- **Templates settle**: header, footer and content as those of overrides, the
    conditions with their rules.  A template without conditions holds the empty
    set of rules. -/
theorem Template.settles : Node.Settles ofNode? toJson := by
  intro node template h
  obtain ⟨stored, hstored, stores⟩ :=
    Record.ofNode?_stored fieldNames template.toJson rfl rfl (by decide)
  obtain ⟨record, -, h⟩ := Option.bind_eq_some_iff.mp h
  obtain ⟨id, hid, h⟩ := Option.bind_eq_some_iff.mp h
  obtain ⟨name, hname, h⟩ := Option.bind_eq_some_iff.mp h
  obtain ⟨slug, hslug, h⟩ := Option.bind_eq_some_iff.mp h
  obtain ⟨type, htype, h⟩ := Option.bind_eq_some_iff.mp h
  obtain ⟨header, hheader, h⟩ := Option.bind_eq_some_iff.mp h
  obtain ⟨footer, hfooter, h⟩ := Option.bind_eq_some_iff.mp h
  obtain ⟨content, hcontent, h⟩ := Option.bind_eq_some_iff.mp h
  obtain ⟨html, hhtml, h⟩ := Option.bind_eq_some_iff.mp h
  obtain ⟨css, hcss, h⟩ := Option.bind_eq_some_iff.mp h
  obtain ⟨js, hjs, h⟩ := Option.bind_eq_some_iff.mp h
  obtain ⟨conditions, hconditions, h⟩ := Option.bind_eq_some_iff.mp h
  obtain ⟨priority, hpriority, h⟩ := Option.bind_eq_some_iff.mp h
  obtain ⟨status, hstatus, h⟩ := Option.bind_eq_some_iff.mp h
  obtain rfl := Option.some.inj h
  have hrules := Column.settles_rules (show Column.lenient RuleSet.ofJson .null = some {} from rfl)
  rw [ofNode?, hstored]
  refine stores.bind hid rfl Node.settles_natural rfl ?_
  refine stores.bind hname rfl Node.settles_text rfl ?_
  refine stores.bind hslug rfl Node.settles_text rfl ?_
  refine stores.bind htype rfl Node.settles_text rfl ?_
  refine stores.bind hheader rfl Column.settles_optionalId rfl ?_
  refine stores.bind hfooter rfl Column.settles_optionalId rfl ?_
  refine stores.bind hcontent rfl Column.settles_contentItems rfl ?_
  refine stores.bind hhtml rfl Node.settles_text rfl ?_
  refine stores.bind hcss rfl Node.settles_text rfl ?_
  refine stores.bind hjs rfl Node.settles_text rfl ?_
  refine stores.bind hconditions rfl Column.settles_rules hrules ?_
  refine stores.bind hpriority rfl Node.settles_integer rfl ?_
  refine stores.bind hstatus rfl (Node.settles_name fun _ => Status.ofName_name _) rfl ?_
  rfl

end PageLoom
