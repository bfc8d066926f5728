import PageLoom.Entity.Column

/-!
# Overrides — pages made by hand for one post

    An override replaces all of a post's page or one part of it; its type
    says which.
-/

namespace PageLoom

/-- Which part of a page an override replaces. -/
inductive OverrideType
  | full
  | header
  | footer
  | content
  deriving DecidableEq, Repr

namespace OverrideType

/-- The stored name. -/
def name : OverrideType → String
  | .full => "full"
  | .header => "header"
  | .footer => "footer"
  | .content => "content"

/-- The type of a name; an unknown name replaces everything. -/
def ofName (name : String) : OverrideType :=
  if name == "header" then .header
  else if name == "footer" then .footer
  else if name == "content" then .content
  else .full

end OverrideType

/-- A replacement for all or part of one post's page. -/
structure Override where
  id : Nat := 0
  postId : Nat := 0
  overrideType : OverrideType := .full
  headerLayout : Option Nat := none
  footerLayout : Option Nat := none
  content : List ContentItem := []
  customHtml : String := ""
  customCss : String := ""
  customJs : String := ""
  deriving DecidableEq, Repr

namespace Override

/-- The names of an override's fields, in order. -/
def fieldNames : List String :=
  ["id", "post_id", "override_type", "header_layout_id", "footer_layout_id", "content_blocks",
    "custom_html", "custom_css", "custom_js"]

/-- An override from a document. -/
def ofNode? (node : Node) : Option Override := do
  let record ← Record.ofNode? fieldNames node
  return {
    id := ← record.get "id" Node.natural? 0
    postId := ← record.get "post_id" Node.natural? 0
    overrideType := ← record.get "override_type" (fun n => n.text?.map OverrideType.ofName) .full
    headerLayout := ← record.get "header_layout_id" (Column.lenient Column.optionalId) none
    footerLayout := ← record.get "footer_layout_id" (Column.lenient Column.optionalId) none
    content := ← record.get "content_blocks" (Column.lenient Column.contentItems) []
    customHtml := ← record.get "custom_html" Node.text? ""
    customCss := ← record.get "custom_css" Node.text? ""
    customJs := ← record.get "custom_js" Node.text? "" }

/-- The stored form of an override. -/
def toJson (o : Override) : Json :=
  .ofMembers [("id", .ofNat o.id), ("post_id", .ofNat o.postId),
    ("override_type", .string o.overrideType.name),
    ("header_layout_id", .ofOption .ofNat o.headerLayout),
    ("footer_layout_id", .ofOption .ofNat o.footerLayout),
    ("content_blocks", .array (o.content.map ContentItem.toJson)),
    ("custom_html", .string o.customHtml), ("custom_css", .string o.customCss),
    ("custom_js", .string o.customJs)]

end Override

end PageLoom
