import PageLoom.Site.Store
import PageLoom.Proofs.Condition.Strict
import PageLoom.Proofs.Document.Replacement
import PageLoom.Proofs.Json.Printed

/-!
# Encoded columns — a value and its text stand for the same

    A list column peels one layer of string encoding, a condition column any
    number of them (`Json.encoded`).  What is printed reads back, so the column
    means the same with the value as with its text (`Column.items_print`,
    `RuleSet.ofJson_encoded`).  A record that holds the one or the other in
    that field, by name or by place, is read alike (`read_encoded_columns`).
-/

namespace PageLoom

open Condition (RuleSet)

/-- **A value encoded as a string**, in so many layers. -/
def Json.encoded (value : Json) : Nat → Json
  | 0 => value
  | layers + 1 => .string (value.encoded layers).print

/-- A value that printing keeps is kept in any number of layers: each is a string. -/
theorem Json.Kept.encoded {value : Json} {room : Nat} (kept : value.Kept room) (layers : Nat) :
    (value.encoded layers).Kept room := by
  cases layers with
  | zero => exact kept
  | succ layers => exact .string _

/-! ## Columns -/

namespace Column

/-- A text of a value stands for the value. -/
theorem decoded_of_read {text : String} {value : Json} (h : Json.read text = some value) :
    decoded (.string text) = value := by
  have hblank : ¬Text.isBlankText text = true := by
    intro hblank
    rw [Json.read_of_isBlankText hblank] at h
    cases h
  rw [decoded, if_neg hblank, h, Option.getD_some]

/-- **A list column** has the items of an array, native or as text. -/
theorem items_print {values : List Json} (kept : (Json.array values).Kept Json.depthLimit) :
    items (.string (Json.print (.array values))) = items (.array values) := by
  rw [items, decoded_of_read (Json.read_print kept)]
  rfl

/-- A lenient field takes the value of its document. -/
theorem lenient_ofJson {α : Type} (read : Json → α) {value : Json} (ordered : value.Ordered) :
    lenient read (.ofJson value) = some (read value) := by
  rw [lenient, Node.json?_ofJson ordered, Option.map_some]

end Column

/-- **A condition column** has the rules of a value under any number of layers. -/
theorem Condition.RuleSet.ofJson_encoded {value : Json} (kept : value.Kept Json.depthLimit)
    (layers : Nat) : ofJson (value.encoded layers) = ofJson value := by
  induction layers with
  | zero => rfl
  | succ layers ih =>
      have hread := Json.read_print (kept.encoded layers)
      exact (ofText_of_read hread).trans ih

/-! ## Records -/

section Records

variable {a b : Node}

/-- Of its content column a template reads only what the column gives. -/
theorem Template.ofNode?_content_congr
    (h : Column.lenient Column.contentItems a = Column.lenient Column.contentItems b)
    (document : Node) :
    ofNode? (document.withField fieldNames "content_blocks" a) =
      ofNode? (document.withField fieldNames "content_blocks" b) := by
  refine Record.ofNode?_bind_congr (by decide) (fun record => ?_) document
  -- field by field: the replaced one reads alike, the others do not see it
  repeat first
    | refine record.bind_withField_self h fun _ => ?_
    | refine record.bind_withField_of_ne (by decide) fun _ => ?_
  rfl

/-- Of its conditions a template reads only the rule set. -/
theorem Template.ofNode?_conditions_congr
    (h : Column.lenient RuleSet.ofJson a = Column.lenient RuleSet.ofJson b) (document : Node) :
    ofNode? (document.withField fieldNames "conditions" a) =
      ofNode? (document.withField fieldNames "conditions" b) := by
  refine Record.ofNode?_bind_congr (by decide) (fun record => ?_) document
  repeat first
    | refine record.bind_withField_self h fun _ => ?_
    | refine record.bind_withField_of_ne (by decide) fun _ => ?_
  rfl

/-- Of its content column an override reads only what the column gives. -/
theorem Override.ofNode?_content_congr
    (h : Column.lenient Column.contentItems a = Column.lenient Column.contentItems b)
    (document : Node) :
    ofNode? (document.withField fieldNames "content_blocks" a) =
      ofNode? (document.withField fieldNames "content_blocks" b) := by
  refine Record.ofNode?_bind_congr (by decide) (fun record => ?_) document
  repeat first
    | refine record.bind_withField_self h fun _ => ?_
    | refine record.bind_withField_of_ne (by decide) fun _ => ?_
  rfl

/-- Of its block order a layout reads only the identifiers. -/
theorem Layout.ofNode?_blockOrder_congr
    (h : Column.lenient Column.ids a = Column.lenient Column.ids b) (document : Node) :
    ofNode? (document.withField fieldNames "block_order" a) =
      ofNode? (document.withField fieldNames "block_order" b) := by
  refine Record.ofNode?_bind_congr (by decide) (fun record => ?_) document
  repeat first
    | refine record.bind_withField_self h fun _ => ?_
    | refine record.bind_withField_of_ne (by decide) fun _ => ?_
  rfl

end Records

/-- **Encodings do not show.**  A list column of any record reads the same from
    an array as from its text, namely as the items in it; a condition column
    reads the same from a value as from its text, the text of that text, and so
    on. -/
theorem read_encoded_columns {values : List Json} {value : Json}
    (keptValues : (Json.array values).Kept Json.depthLimit)
    (kept : value.Kept Json.depthLimit) (layers : Nat) (document : Node) :
    let native := Node.ofJson (.array values)
    let text := Node.ofJson (.string (Json.print (.array values)))
    Template.ofNode? (document.withField Template.fieldNames "content_blocks" text) =
        Template.ofNode? (document.withField Template.fieldNames "content_blocks" native) ∧
      Override.ofNode? (document.withField Override.fieldNames "content_blocks" text) =
        Override.ofNode? (document.withField Override.fieldNames "content_blocks" native) ∧
      Layout.ofNode? (document.withField Layout.fieldNames "block_order" text) =
        Layout.ofNode? (document.withField Layout.fieldNames "block_order" native) ∧
      Column.lenient Column.contentItems text = some (values.filterMap ContentItem.ofJson?) ∧
      Column.lenient Column.ids text = some (values.filterMap Column.id?) ∧
      Template.ofNode? (document.withField Template.fieldNames "conditions"
          (.ofJson (value.encoded layers))) =
        Template.ofNode? (document.withField Template.fieldNames "conditions" (.ofJson value)) := by
  intro native text
  have hitems := Column.items_print keptValues
  have hcontent : ∀ node, node = native ∨ node = text →
      Column.lenient Column.contentItems node = some (values.filterMap ContentItem.ofJson?) := by
    rintro node (rfl | rfl)
    · exact Column.lenient_ofJson _ keptValues.ordered
    · rw [Column.lenient_ofJson _ (.string _), Column.contentItems, hitems]
      rfl
  have hids : ∀ node, node = native ∨ node = text →
      Column.lenient Column.ids node = some (values.filterMap Column.id?) := by
    rintro node (rfl | rfl)
    · exact Column.lenient_ofJson _ keptValues.ordered
    · rw [Column.lenient_ofJson _ (.string _), Column.ids, hitems]
      rfl
  have hconditions : Column.lenient RuleSet.ofJson (.ofJson (value.encoded layers)) =
      Column.lenient RuleSet.ofJson (.ofJson value) := by
    rw [Column.lenient_ofJson _ (kept.encoded layers).ordered, Column.lenient_ofJson _ kept.ordered,
      RuleSet.ofJson_encoded kept]
  have hsame := (hcontent text (.inr rfl)).trans (hcontent native (.inl rfl)).symm
  have hsameIds := (hids text (.inr rfl)).trans (hids native (.inl rfl)).symm
  exact ⟨Template.ofNode?_content_congr hsame document,
    Override.ofNode?_content_congr hsame document, Layout.ofNode?_blockOrder_congr hsameIds document,
    hcontent text (.inr rfl), hids text (.inr rfl),
    Template.ofNode?_conditions_congr hconditions document⟩

/-- Content as text, and conditions in two layers of strings. -/
theorem read_encoded_columns_page :
    let values : List Json := [.number (.int 7), .string "12", .null, .string "<p>\"x\"</p>"]
    let rule : Json := .object [("field", .string "tag"), ("value", .string "news")]
    let rules : Json := .object [("match", .string "any"), ("rules", .array [rule])]
    let document : Node :=
      .map [("id", .number (.int 9)), ("content_blocks", .null), ("conditions", .null)]
    (Json.array values).Kept Json.depthLimit ∧ rules.Kept Json.depthLimit ∧
      Template.ofNode? (document.withField Template.fieldNames "content_blocks"
          (.ofJson (.string (Json.print (.array values))))) =
        some { id := 9, content := [.block 7, .block 12, .markup "<p>\"x\"</p>"] } ∧
      Template.ofNode? (document.withField Template.fieldNames "conditions"
          (.ofJson (rules.encoded 2))) =
        some { id := 9, conditions := ⟨.any, [⟨"tag", .is, .text "news"⟩]⟩ } := by
  intro values rule rules document
  have keptValues : (Json.array values).Kept Json.depthLimit := by decide +kernel
  have kept : rules.Kept Json.depthLimit := by decide +kernel
  obtain ⟨hcontent, -, -, -, -, hconditions⟩ :=
    read_encoded_columns keptValues kept 2 document
  exact ⟨keptValues, kept, hcontent.trans (by decide +kernel),
    hconditions.trans (by decide +kernel)⟩

end PageLoom
