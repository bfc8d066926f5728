import PageLoom.Entity.Block
import PageLoom.Entity.Column

/-!
# Layouts — regions made of blocks or of markup

    A layout shows either its blocks in order or its own markup, never
    both.  Its kind says which region of the page it is meant for.
-/

namespace PageLoom

/-- The region a layout is meant for. -/
inductive LayoutKind
  | header
  | footer
  | section
  deriving DecidableEq, Repr

namespace LayoutKind

/-- The stored name. -/
def name : LayoutKind → String
  | .header => "header"
  | .footer => "footer"
  | .section => "section"

/-- The kind of a name; an unknown name is a section. -/
def ofName (name : String) : LayoutKind :=
  if name == "header" then .header
  else if name == "footer" then .footer
  else .section

end LayoutKind

/-- A region made of blocks, or of markup of its own. -/
structure Layout where
  id : Nat := 0
  name : String := ""
  slug : String := ""
  kind : LayoutKind := .section
  usesBlocks : Bool := true
  blockOrder : List Nat := []
  customHtml : String := ""
  customCss : String := ""
  customJs : String := ""
  status : Status := .active
  deriving DecidableEq, Repr

namespace Layout

/-- The names of a layout's fields, in order. -/
def fieldNames : List String :=
  ["id", "name", "slug", "type", "use_blocks", "block_order", "custom_html", "custom_css",
    "custom_js", "status"]

/-- A layout from a document. -/
def ofNode? (node : Node) : Option Layout := do
  let record ← Record.ofNode? fieldNames node
  return {
    id := ← record.get "id" Node.natural? 0
    name := ← record.get "name" Node.text? ""
    slug := ← record.get "slug" Node.text? ""
    kind := ← record.get "type" (fun n => n.text?.map LayoutKind.ofName) .section
    usesBlocks := ← record.get "use_blocks" (Column.lenient Column.flag) true
    blockOrder := ← record.get "block_order" (Column.lenient Column.ids) []
    customHtml := ← record.get "custom_html" Node.text? ""
    customCss := ← record.get "custom_css" Node.text? ""
    customJs := ← record.get "custom_js" Node.text? ""
    status := ← record.get "status" (fun n => n.text?.map Status.ofName) .active }

/-- The stored form of a layout. -/
def toJson (layout : Layout) : Json :=
  .ofMembers [("id", .ofNat layout.id), ("name", .string layout.name),
    ("slug", .string layout.slug), ("type", .string layout.kind.name),
    ("use_blocks", .bool layout.usesBlocks),
    ("block_order", .array (layout.blockOrder.map .ofNat)),
    ("custom_html", .string layout.customHtml), ("custom_css", .string layout.customCss),
    ("custom_js", .string layout.customJs), ("status", .string layout.status.name)]

end Layout

end PageLoom
