import PageLoom.Calendar.Reader
import PageLoom.Document.Node

/-!
# Posts — what a request shows

    Posts come with their author, their terms and two tables: `meta` for
    conditions, `customFields` for display.  Dates are instants, written as
    timestamps.
-/

namespace PageLoom

/-- A category or tag of a post. -/
structure Term where
  slug : String := ""
  name : String := ""
  url : String := ""
  deriving DecidableEq, Repr

namespace Term

/-- A term from a document. -/
def ofNode? (node : Node) : Option Term := do
  let record ← Record.ofNode? ["slug", "name", "url"] node
  return {
    slug := ← record.get "slug" Node.text? ""
    name := ← record.get "name" Node.text? ""
    url := ← record.get "url" Node.text? "" }

/-- The stored form of a term. -/
def toJson (term : Term) : Json :=
  .ofMembers [("slug", .string term.slug), ("name", .string term.name), ("url", .string term.url)]

end Term

/-- The author of a post. -/
structure Author where
  login : String := ""
  displayName : String := ""
  avatarUrl : String := ""
  bio : String := ""
  deriving DecidableEq, Repr

namespace Author

/-- An author from a document. -/
def ofNode? (node : Node) : Option Author := do
  let record ← Record.ofNode? ["login", "display_name", "avatar_url", "bio"] node
  return {
    login := ← record.get "login" Node.text? ""
    displayName := ← record.get "display_name" Node.text? ""
    avatarUrl := ← record.get "avatar_url" Node.text? ""
    bio := ← record.get "bio" Node.text? "" }

/-- The stored form of an author. -/
def toJson (author : Author) : Json :=
  .ofMembers [("login", .string author.login), ("display_name", .string author.displayName),
    ("avatar_url", .string author.avatarUrl), ("bio", .string author.bio)]

end Author

/-- An instant from a document. -/
def Instant.ofNode? (node : Node) : Option Instant :=
  node.text?.bind Instant.ofStored?

/-- The stored form of an instant. -/
def Instant.toJson (t : Instant) : Json :=
  .string t.text

/-- A post. -/
structure Post where
  id : Nat := 0
  title : String := ""
  content : String := ""
  /-- the excerpt written by hand; empty when it follows from the content -/
  excerpt : String := ""
  date : Option Instant := none
  modified : Option Instant := none
  author : Author := {}
  thumbnailUrl : String := ""
  categories : List Term := []
  tags : List Term := []
  url : String := ""
  postType : String := "post"
  status : String := "publish"
  commentCount : Nat := 0
  /-- the post format; none for the standard one -/
  format : Option String := none
  metaValues : List (String × String) := []
  customFields : List (String × Json) := []
  deriving Repr

instance : Inhabited Post := ⟨{}⟩

namespace Post

/-- The names of a post's fields, in order. -/
def fieldNames : List String :=
  ["id", "title", "content", "excerpt", "date", "modified", "author", "thumbnail_url",
    "categories", "tags", "url", "post_type", "status", "comment_count", "format", "meta",
    "custom_fields"]

/-- A post from a document. -/
def ofNode? (node : Node) : Option Post := do
  let record ← Record.ofNode? fieldNames node
  return {
    id := ← record.get "id" Node.natural? 0
    title := ← record.get "title" Node.text? ""
    content := ← record.get "content" Node.text? ""
    excerpt := ← record.get "excerpt" Node.text? ""
    date := ← record.get "date" (Node.optional? Instant.ofNode?) none
    modified := ← record.get "modified" (Node.optional? Instant.ofNode?) none
    author := ← record.get "author" Author.ofNode? {}
    thumbnailUrl := ← record.get "thumbnail_url" Node.text? ""
    categories := ← record.get "categories" (Node.list? Term.ofNode?) []
    tags := ← record.get "tags" (Node.list? Term.ofNode?) []
    url := ← record.get "url" Node.text? ""
    postType := ← record.get "post_type" Node.text? "post"
    status := ← record.get "status" Node.text? "publish"
    commentCount := ← record.get "comment_count" Node.natural? 0
    format := ← record.get "format" (Node.optional? Node.text?) none
    metaValues := ← record.get "meta" (Node.table? Node.text?) []
    customFields := ← record.get "custom_fields" (Node.table? Node.json?) [] }

/-- The stored form of a post. -/
def toJson (post : Post) : Json :=
  .ofMembers [("id", .ofNat post.id), ("title", .string post.title),
    ("content", .string post.content), ("excerpt", .string post.excerpt),
    ("date", .ofOption Instant.toJson post.date),
    ("modified", .ofOption Instant.toJson post.modified), ("author", post.author.toJson),
    ("thumbnail_url", .string post.thumbnailUrl),
    ("categories", .array (post.categories.map Term.toJson)),
    ("tags", .array (post.tags.map Term.toJson)), ("url", .string post.url),
    ("post_type", .string post.postType), ("status", .string post.status),
    ("comment_count", .ofNat post.commentCount), ("format", .ofOption .string post.format),
    ("meta", .ofMembers (post.metaValues.map fun (key, value) => (key, .string value))),
    ("custom_fields", .ofMembers post.customFields)]

end Post

end PageLoom
