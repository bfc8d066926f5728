import PageLoom.Entity.Layout
import PageLoom.Entity.Override
import PageLoom.Entity.Template
import PageLoom.Proofs.Json.Integers

/-!
# References — the identifier that an entry stands for

    An entry of a list refers to an entity by a number or by a string of digits.
    The number may be an integer or a double without fraction.  Either form
    refers to the identifier it stores, up to the greatest one
    (`ofJson?_eq_block_iff`).  Beyond it the forms part: a string of digits is
    markup, and a number refers to the greatest identifier, which it does not
    store (`references_exact`).
-/

namespace PageLoom

open Text

/-- A JSON value that stores a natural number, as a number or in digits. -/
def Json.Stores : Json → Nat → Prop
  | .number x, n => x.Denotes n
  | .string text, n => decimal? text.toList = some n
  | _, _ => False

/-- The identifier that a JSON value refers to: the one it stores, and the greatest
    one for every greater number. -/
inductive Json.RefersTo : Json → Nat → Prop
  | stored {value : Json} {id : Nat} (h : value.Stores id) (hid : id ≤ greatestId) :
      RefersTo value id
  | beyond {x : Number} {n : Nat} (h : x.Denotes n) (hn : greatestId < n) :
      RefersTo (.number x) greatestId

namespace ContentItem

/-! ## Numbers -/

/-- The integer part of a number that is not below zero. -/
theorem toNat_truncate {x : Binary64} (h : x.isZero = true ∨ x.negative = false) :
    x.truncate.toNat = x.magnitude.1 / x.magnitude.2 := by
  show (if x.negative = true then -((x.magnitude.1 / x.magnitude.2 : Nat) : Int)
    else ((x.magnitude.1 / x.magnitude.2 : Nat) : Int)).toNat = _
  split
  · rename_i hnegative
    have hzero : x.magnitude.1 = 0 := by
      rcases h with hzero | hpositive
      · rw [Binary64.magnitude, beq_iff_eq.mp hzero, Nat.zero_mul]
      · rw [hpositive] at hnegative
        cases hnegative
    rw [hzero, Nat.zero_div]
    rfl
  · exact Int.toNat_natCast _

/-- **A number is an item** exactly when its value is a natural number. -/
theorem ofNumber?_eq_some_iff {x : Number} {item : ContentItem} :
    ofNumber? x = some item ↔ ∃ n, x.Denotes n ∧ item = .block (min n greatestId) := by
  cases x with
  | int i =>
      rw [ofNumber?, Option.ite_none_right_eq_some]
      constructor
      · rintro ⟨hi, heq⟩
        obtain ⟨n, rfl⟩ := Int.eq_ofNat_of_zero_le hi
        exact ⟨n, rfl, (Option.some.inj heq).symm⟩
      · rintro ⟨n, hn, rfl⟩
        obtain rfl : i = n := hn
        exact ⟨Int.natCast_nonneg n, rfl⟩
  | real x =>
      have hnatural : (x.isIntegral && (x.isZero || !x.negative)) = true ↔
          x.magnitude.1 % x.magnitude.2 = 0 ∧ (x.isZero = true ∨ x.negative = false) := by
        rw [Bool.and_eq_true_iff, Bool.or_eq_true_iff, Bool.not_eq_true']
        exact and_congr_left fun _ => beq_iff_eq
      rw [ofNumber?, Option.ite_none_right_eq_some, hnatural]
      constructor
      · rintro ⟨⟨hmod, hsign⟩, heq⟩
        rw [toNat_truncate hsign] at heq
        exact ⟨_, ⟨Binary64.size_eq_natCast_iff.mpr ⟨hmod, rfl⟩, hsign⟩, (Option.some.inj heq).symm⟩
      · rintro ⟨n, ⟨hsize, hsign⟩, rfl⟩
        obtain ⟨hmod, rfl⟩ := Binary64.size_eq_natCast_iff.mp hsize
        rw [toNat_truncate hsign]
        exact ⟨⟨hmod, hsign⟩, rfl⟩

/-! ## Entries -/

/-- A text is an identifier when it is digits only, of a number in range. -/
theorem id?_eq_some_iff {text : String} {id : Nat} :
    id? text = some id ↔ decimal? text.toList = some id ∧ id ≤ greatestId := by
  rw [id?, Option.filter_eq_some_iff, decide_eq_true_iff]

/-- Only such a text is a block. -/
theorem ofText_eq_block_iff {text : String} {id : Nat} :
    ofText text = .block id ↔ id? text = some id := by
  rw [ofText]
  cases id? text with
  | none => exact iff_of_false (fun h => nomatch h) (fun h => nomatch h)
  | some n => rw [ContentItem.block.injEq, Option.some.injEq]

/-- **The item of the digits of a number** is a block up to the greatest identifier. -/
theorem ofText_toString (n : Nat) :
    ofText (toString n) = if n ≤ greatestId then .block n else .markup (toString n) := by
  have hdigits : decimal? (toString n).toList = some n := by
    rw [Nat.toString_eq_repr, Nat.toList_repr, decimal?_toDigits]
  split
  · rename_i hn
    exact ofText_eq_block_iff.mpr (id?_eq_some_iff.mpr ⟨hdigits, hn⟩)
  · rename_i hn
    have hid : id? (toString n) = none := by
      rw [id?, hdigits, Option.filter_some, if_neg (by rwa [decide_eq_true_iff])]
    rw [ofText, hid]

/-- **The item of the numeral of a number**, read as a JSON value. -/
theorem ofJson?_of_read {n : Nat} {value : Json} (h : Json.read (toString n) = some value) :
    ofJson? value = some (.block (min n greatestId)) := by
  rw [Json.read_toString] at h
  obtain ⟨x, hx, rfl⟩ := Option.map_eq_some_iff.mp h
  by_cases hn : n ≤ greatestId
  · have hword : n ≤ greatestWord := hn
    rw [Json.Numeral.read_toDigits, if_pos hword] at hx
    obtain rfl := Option.some.inj hx
    have hdenotes : (Number.int n).Denotes n := rfl
    exact ofNumber?_eq_some_iff.mpr ⟨n, hdenotes, rfl⟩
  · -- the double is not the number, but it is beyond the identifiers too
    obtain ⟨m, hm, hdenotes⟩ : ∃ m, greatestId < m ∧ x.Denotes m :=
      Json.Numeral.denotes_of_read (not_le.mp hn) hx
    rw [Nat.min_eq_right (not_le.mp hn).le, ← Nat.min_eq_right hm.le]
    exact ofNumber?_eq_some_iff.mpr ⟨m, hdenotes, rfl⟩

/-- **What an entry refers to.** -/
theorem ofJson?_eq_block_iff {value : Json} {id : Nat} :
    ofJson? value = some (.block id) ↔ value.RefersTo id := by
  constructor
  · intro h
    cases value with
    | number x =>
        obtain ⟨n, hn, heq⟩ := ofNumber?_eq_some_iff.mp h
        obtain rfl := ContentItem.block.inj heq
        rcases Nat.le_total n greatestId with hle | hge
        · rw [Nat.min_eq_left hle]
          exact .stored hn hle
        · rw [Nat.min_eq_right hge]
          rcases hge.lt_or_eq with hlt | heq
          · exact .beyond hn hlt
          · exact .stored (heq ▸ hn) le_rfl
    | string text =>
        obtain ⟨hdigits, hid⟩ := id?_eq_some_iff.mp (ofText_eq_block_iff.mp (Option.some.inj h))
        exact .stored hdigits hid
    | _ => cases h
  · rintro (⟨hstores, hid⟩ | ⟨hdenotes, hn⟩)
    · cases value with
      | number x =>
          refine ofNumber?_eq_some_iff.mpr ⟨id, hstores, ?_⟩
          rw [Nat.min_eq_left hid]
      | string text =>
          exact congrArg some (ofText_eq_block_iff.mpr (id?_eq_some_iff.mpr ⟨hstores, hid⟩))
      | _ => exact hstores.elim
    · refine ofNumber?_eq_some_iff.mpr ⟨_, hdenotes, ?_⟩
      rw [Nat.min_eq_right hn.le]

end ContentItem

/-! ## Columns -/

namespace Column

theorem id?_eq_some_iff {value : Json} {id : Nat} : id? value = some id ↔ value.RefersTo id := by
  rw [← ContentItem.ofJson?_eq_block_iff, id?, Option.bind_eq_some_iff]
  constructor
  · rintro ⟨item, hitem, hid⟩
    cases item with
    | block n =>
        obtain rfl := Option.some.inj hid
        exact hitem
    | markup text => cases hid
  · intro h
    exact ⟨.block id, h, rfl⟩

/-- A block is in a content list when an entry of the value refers to it. -/
theorem mem_contentItems_iff {value : Json} {id : Nat} :
    .block id ∈ contentItems value ↔ ∃ entry ∈ items value, entry.RefersTo id := by
  rw [contentItems, List.mem_filterMap]
  simp only [ContentItem.ofJson?_eq_block_iff]

/-- An identifier is in a list when an entry of the value refers to it. -/
theorem mem_ids_iff {value : Json} {id : Nat} :
    id ∈ ids value ↔ ∃ entry ∈ items value, entry.RefersTo id := by
  rw [ids, List.mem_filterMap]
  simp only [id?_eq_some_iff]

/-- An optional identifier is what the value refers to, zero apart. -/
theorem optionalId_eq_some_iff {value : Json} {id : Nat} :
    optionalId value = some id ↔ value.RefersTo id ∧ id ≠ 0 := by
  rw [optionalId, Option.filter_eq_some_iff, id?_eq_some_iff, bne_iff_ne]

end Column

/-! ## Records -/

namespace Record

/-- The value that a record gives in a field. -/
def Gives (record : Record) (name : String) (value : Json) : Prop :=
  ∃ node, record.fields.lookup name = some node ∧ node.json? = some value

/-- An entry of the list in a field refers to an identifier. -/
def Lists (record : Record) (name : String) (id : Nat) : Prop :=
  ∃ value, record.Gives name value ∧ ∃ entry ∈ Column.items value, entry.RefersTo id

/-- The value in a field refers to an identifier, zero being none. -/
def RefersTo (record : Record) (name : String) (id : Nat) : Prop :=
  ∃ value, record.Gives name value ∧ value.RefersTo id ∧ id ≠ 0

/-- Content and layouts that refer to what the fields of a record refer to. -/
structure ContentReferences (record : Record) (content : List ContentItem)
    (header footer : Option Nat) : Prop where
  content : ∀ id, .block id ∈ content ↔ record.Lists "content_blocks" id
  header : ∀ id, header = some id ↔ record.RefersTo "header_layout_id" id
  footer : ∀ id, footer = some id ↔ record.RefersTo "footer_layout_id" id

variable {record : Record} {name : String}

/-- **A lenient field** is what the value that the record gives is read to, in every
    respect in which it is not the default. -/
theorem get_lenient_iff {α : Type} {read : Json → α} {default a : α} {P : α → Prop}
    (h : record.get name (Column.lenient read) default = some a) (hdefault : ¬P default) :
    P a ↔ ∃ value, record.Gives name value ∧ P (read value) := by
  rw [get] at h
  constructor
  · intro ha
    cases hlookup : record.fields.lookup name with
    | none =>
        rw [hlookup] at h
        obtain rfl := Option.some.inj h
        exact absurd ha hdefault
    | some node =>
        rw [hlookup] at h
        obtain ⟨value, hvalue, rfl⟩ := Option.map_eq_some_iff.mp h
        exact ⟨value, ⟨node, hlookup, hvalue⟩, ha⟩
  · rintro ⟨value, ⟨node, hlookup, hvalue⟩, ha⟩
    rw [hlookup] at h
    have hread := h.symm.trans (congrArg (Option.map read) hvalue)
    rw [Option.some.inj hread]
    exact ha

theorem mem_get_contentItems_iff {content : List ContentItem} {id : Nat}
    (h : record.get name (Column.lenient Column.contentItems) [] = some content) :
    .block id ∈ content ↔ record.Lists name id := by
  rw [get_lenient_iff (P := (.block id ∈ ·)) h List.not_mem_nil]
  simp only [Column.mem_contentItems_iff]
  rfl

theorem mem_get_ids_iff {order : List Nat} {id : Nat}
    (h : record.get name (Column.lenient Column.ids) [] = some order) :
    id ∈ order ↔ record.Lists name id := by
  rw [get_lenient_iff (P := (id ∈ ·)) h List.not_mem_nil]
  simp only [Column.mem_ids_iff]
  rfl

theorem get_optionalId_iff {layout : Option Nat} {id : Nat}
    (h : record.get name (Column.lenient Column.optionalId) none = some layout) :
    layout = some id ↔ record.RefersTo name id := by
  rw [get_lenient_iff (P := (· = some id)) h (fun hnone => nomatch hnone)]
  simp only [Column.optionalId_eq_some_iff]
  rfl

end Record

/-- **What a template refers to** is what its document says. -/
theorem Template.references {node : Node} {template : Template}
    (h : ofNode? node = some template) :
    ∃ record, Record.ofNode? fieldNames node = some record ∧
      record.ContentReferences template.content template.headerLayout template.footerLayout := by
  obtain ⟨record, hrecord, h⟩ := Option.bind_eq_some_iff.mp h
  obtain ⟨id, -, h⟩ := Option.bind_eq_some_iff.mp h
  obtain ⟨name, -, h⟩ := Option.bind_eq_some_iff.mp h
  obtain ⟨slug, -, h⟩ := Option.bind_eq_some_iff.mp h
  obtain ⟨type, -, h⟩ := Option.bind_eq_some_iff.mp h
  obtain ⟨header, hheader, h⟩ := Option.bind_eq_some_iff.mp h
  obtain ⟨footer, hfooter, h⟩ := Option.bind_eq_some_iff.mp h
  obtain ⟨content, hcontent, h⟩ := Option.bind_eq_some_iff.mp h
  obtain ⟨html, -, h⟩ := Option.bind_eq_some_iff.mp h
  obtain ⟨css, -, h⟩ := Option.bind_eq_some_iff.mp h
  obtain ⟨js, -, h⟩ := Option.bind_eq_some_iff.mp h
  obtain ⟨conditions, -, h⟩ := Option.bind_eq_some_iff.mp h
  obtain ⟨priority, -, h⟩ := Option.bind_eq_some_iff.mp h
  obtain ⟨status, -, h⟩ := Option.bind_eq_some_iff.mp h
  obtain rfl := Option.some.inj h
  exact ⟨record, hrecord, fun _ => Record.mem_get_contentItems_iff hcontent,
    fun _ => Record.get_optionalId_iff hheader, fun _ => Record.get_optionalId_iff hfooter⟩

/-- **What an override refers to** is what its document says. -/
theorem Override.references {node : Node} {o : Override} (h : ofNode? node = some o) :
    ∃ record, Record.ofNode? fieldNames node = some record ∧
      record.ContentReferences o.content o.headerLayout o.footerLayout := by
  obtain ⟨record, hrecord, h⟩ := Option.bind_eq_some_iff.mp h
  obtain ⟨id, -, h⟩ := Option.bind_eq_some_iff.mp h
  obtain ⟨post, -, h⟩ := Option.bind_eq_some_iff.mp h
  obtain ⟨type, -, h⟩ := Option.bind_eq_some_iff.mp h
  obtain ⟨header, hheader, h⟩ := Option.bind_eq_some_iff.mp h
  obtain ⟨footer, hfooter, h⟩ := Option.bind_eq_some_iff.mp h
  obtain ⟨content, hcontent, h⟩ := Option.bind_eq_some_iff.mp h
  obtain ⟨html, -, h⟩ := Option.bind_eq_some_iff.mp h
  obtain ⟨css, -, h⟩ := Option.bind_eq_some_iff.mp h
  obtain ⟨js, -, h⟩ := Option.bind_eq_some_iff.mp h
  obtain rfl := Option.some.inj h
  exact ⟨record, hrecord, fun _ => Record.mem_get_contentItems_iff hcontent,
    fun _ => Record.get_optionalId_iff hheader, fun _ => Record.get_optionalId_iff hfooter⟩

/-- **The blocks of a layout** are those that its document lists. -/
theorem Layout.references {node : Node} {layout : Layout} (h : ofNode? node = some layout) :
    ∃ record, Record.ofNode? fieldNames node = some record ∧ ∀ id,
      id ∈ layout.blockOrder ↔ record.Lists "block_order" id := by
  obtain ⟨record, hrecord, h⟩ := Option.bind_eq_some_iff.mp h
  obtain ⟨id, -, h⟩ := Option.bind_eq_some_iff.mp h
  obtain ⟨name, -, h⟩ := Option.bind_eq_some_iff.mp h
  obtain ⟨slug, -, h⟩ := Option.bind_eq_some_iff.mp h
  obtain ⟨kind, -, h⟩ := Option.bind_eq_some_iff.mp h
  obtain ⟨usesBlocks, -, h⟩ := Option.bind_eq_some_iff.mp h
  obtain ⟨order, horder, h⟩ := Option.bind_eq_some_iff.mp h
  obtain ⟨html, -, h⟩ := Option.bind_eq_some_iff.mp h
  obtain ⟨css, -, h⟩ := Option.bind_eq_some_iff.mp h
  obtain ⟨js, -, h⟩ := Option.bind_eq_some_iff.mp h
  obtain ⟨status, -, h⟩ := Option.bind_eq_some_iff.mp h
  obtain rfl := Option.some.inj h
  exact ⟨record, hrecord, fun id => Record.mem_get_ids_iff horder⟩

/-! ## Numbers of any size -/

/-- **References are exact up to the greatest identifier.**  The numeral of a number
    and the string of its digits are the same block there, and differ beyond, where a
    numeral is the greatest identifier.  The columns of records refer to what the
    entries in them refer to, and to nothing else. -/
theorem references_exact (n : Nat) (node : Node) :
    ((n < 10 ^ 308 → (Json.read (toString n)).isSome = true) ∧
      ContentItem.ofJson? (.string (toString n)) =
        some (if n ≤ greatestId then .block n else .markup (toString n)) ∧
      ∀ value, Json.read (toString n) = some value →
        ContentItem.ofJson? value = some (.block (min n greatestId)) ∧
        (ContentItem.ofJson? value = ContentItem.ofJson? (.string (toString n)) ↔
          n ≤ greatestId)) ∧
      (∀ template, Template.ofNode? node = some template →
        ∃ record, Record.ofNode? Template.fieldNames node = some record ∧
          record.ContentReferences template.content template.headerLayout
            template.footerLayout) ∧
      (∀ o, Override.ofNode? node = some o →
        ∃ record, Record.ofNode? Override.fieldNames node = some record ∧
          record.ContentReferences o.content o.headerLayout o.footerLayout) ∧
      (∀ layout, Layout.ofNode? node = some layout →
        ∃ record, Record.ofNode? Layout.fieldNames node = some record ∧ ∀ id,
          id ∈ layout.blockOrder ↔ record.Lists "block_order" id) := by
  refine ⟨⟨fun hn => ?_, congrArg some (ContentItem.ofText_toString n),
    fun value hread => ⟨ContentItem.ofJson?_of_read hread, ?_⟩⟩,
    fun _ => Template.references, fun _ => Override.references, fun _ => Layout.references⟩
  · rw [Json.read_toString, Option.isSome_map]
    exact Json.Numeral.isSome_read hn
  · rw [ContentItem.ofJson?_of_read hread, ContentItem.ofJson?, ContentItem.ofText_toString,
      Option.some.injEq]
    split
    · rename_i hn
      rw [Nat.min_eq_left hn]
      exact iff_of_true rfl hn
    · rename_i hn
      exact iff_of_false (fun h => nomatch h) hn

/-- A number that needs 65 bits refers to an identifier that it is not, and its digits
    to none. -/
theorem not_references_exact_beyond :
    (Json.read "18446744073709551616").bind ContentItem.ofJson? =
        some (.block 18446744073709551615) ∧
      ContentItem.ofJson? (.string "18446744073709551616") =
        some (.markup "18446744073709551616") ∧
      (Json.read "[18446744073709551616]").map Column.ids = some [18446744073709551615] := by
  decide +kernel

end PageLoom
