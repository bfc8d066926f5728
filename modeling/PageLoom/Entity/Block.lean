import PageLoom.Document.Node

/-!
# Blocks — reusable fragments of markup, style and script

    A block has a status, and its stylesheet is either confined to the block
    or global.  The words of both choices are stored by name, and a name
    without meaning falls to the careful side: a draft, a global sheet.
-/

namespace PageLoom

/-- The publication status of an entity; only active entities render. -/
inductive Status
  | active
  | draft
  | trash
  deriving DecidableEq, Repr

namespace Status

/-- The stored name. -/
def name : Status → String
  | .active => "active"
  | .draft => "draft"
  | .trash => "trash"

/-- The status of a name; an unknown name is a draft. -/
def ofName (name : String) : Status :=
  if name == "active" then .active
  else if name == "trash" then .trash
  else .draft

/-- Whether entities of this status render. -/
def isActive (status : Status) : Bool :=
  status == .active

end Status

/-- Whether a block's stylesheet is confined to the block's wrapper. -/
inductive StyleScope
  | scoped
  | global
  deriving DecidableEq, Repr

namespace StyleScope

/-- The stored name. -/
def name : StyleScope → String
  | .scoped => "scoped"
  | .global => "global"

/-- The scope of a name; an unknown name is global. -/
def ofName (name : String) : StyleScope :=
  if name == "scoped" then .scoped else .global

end StyleScope

/-- A reusable fragment. -/
structure Block where
  id : Nat := 0
  name : String := ""
  slug : String := ""
  html : String := ""
  css : String := ""
  js : String := ""
  category : String := "general"
  styleScope : StyleScope := .scoped
  status : Status := .active
  deriving DecidableEq, Repr

namespace Block

/-- The class of the block's wrapper. -/
def scopeClass (block : Block) : String :=
  "codesite-block-" ++ toString block.id

/-- The names of a block's fields, in order. -/
def fieldNames : List String :=
  ["id", "name", "slug", "html", "css", "js", "category", "css_scope", "status"]

/-- A block from a document. -/
def ofNode? (node : Node) : Option Block := do
  let record ← Record.ofNode? fieldNames node
  return {
    id := ← record.get "id" Node.natural? 0
    name := ← record.get "name" Node.text? ""
    slug := ← record.get "slug" Node.text? ""
    html := ← record.get "html" Node.text? ""
    css := ← record.get "css" Node.text? ""
    js := ← record.get "js" Node.text? ""
    category := ← record.get "category" Node.text? "general"
    styleScope := ← record.get "css_scope" (fun n => n.text?.map StyleScope.ofName) .scoped
    status := ← record.get "status" (fun n => n.text?.map Status.ofName) .active }

/-- The stored form of a block. -/
def toJson (block : Block) : Json :=
  .ofMembers [("id", .ofNat block.id), ("name", .string block.name), ("slug", .string block.slug),
    ("html", .string block.html), ("css", .string block.css), ("js", .string block.js),
    ("category", .string block.category), ("css_scope", .string block.styleScope.name),
    ("status", .string block.status.name)]

end Block

end PageLoom
