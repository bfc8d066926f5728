import PageLoom.Entity.Block
import PageLoom.Entity.Column

/-!
# Templates — what a page of one type is made of

    A template serves the requests of one type that meet its conditions.
    Among several the one with the lowest priority is tried first.
-/

namespace PageLoom

open Condition (RuleSet)

/-- A page template for one type of request. -/
structure Template where
  id : Nat := 0
  name : String := ""
  slug : String := ""
  templateType : String := ""
  headerLayout : Option Nat := none
  footerLayout : Option Nat := none
  content : List ContentItem := []
  customHtml : String := ""
  customCss : String := ""
  customJs : String := ""
  conditions : RuleSet := {}
  priority : Int := 10
  status : Status := .active
  deriving DecidableEq, Repr

namespace Template

/-- The names of a template's fields, in order. -/
def fieldNames : List String :=
  ["id", "name", "slug", "template_type", "header_layout_id", "footer_layout_id",
    "content_blocks", "custom_html", "custom_css", "custom_js", "conditions", "priority",
    "status"]

/-- A template from a document. -/
def ofNode? (node : Node) : Option Template := do
  let record ← Record.ofNode? fieldNames node
  return {
    id := ← record.get "id" Node.natural? 0
    name := ← record.get "name" Node.text? ""
    slug := ← record.get "slug" Node.text? ""
    templateType := ← record.get "template_type" Node.text? ""
    headerLayout := ← record.get "header_layout_id" (Column.lenient Column.optionalId) none
    footerLayout := ← record.get "footer_layout_id" (Column.lenient Column.optionalId) none
    content := ← record.get "content_blocks" (Column.lenient Column.contentItems) []
    customHtml := ← record.get "custom_html" Node.text? ""
    customCss := ← record.get "custom_css" Node.text? ""
    customJs := ← record.get "custom_js" Node.text? ""
    conditions := ← record.get "conditions" (Column.lenient RuleSet.ofJson) {}
    priority := ← record.get "priority" Node.integer? 10
    status := ← record.get "status" (fun n => n.text?.map Status.ofName) .active }

/-- The stored form of a template. -/
def toJson (template : Template) : Json :=
  .ofMembers [("id", .ofNat template.id), ("name", .string template.name),
    ("slug", .string template.slug), ("template_type", .string template.templateType),
    ("header_layout_id", .ofOption .ofNat template.headerLayout),
    ("footer_layout_id", .ofOption .ofNat template.footerLayout),
    ("content_blocks", .array (template.content.map ContentItem.toJson)),
    ("custom_html", .string template.customHtml), ("custom_css", .string template.customCss),
    ("custom_js", .string template.customJs), ("conditions", template.conditions.toJson),
    ("priority", .number (.int template.priority)), ("status", .string template.status.name)]

end Template

end PageLoom
