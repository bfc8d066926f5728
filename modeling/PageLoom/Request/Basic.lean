import PageLoom.Request.Post

/-!
# Requests — what was asked for, by whom, on which site

    A request is plain data: its kind, the post it is about, the posts of
    its loop, the visitor and the site.  The time of the request is part of
    it, so that rendering is a function of the request alone; a stored
    request without a time gets the caller's.
-/

namespace PageLoom

/-- What kind of page is asked for. -/
inductive RequestKind
  | frontPage
  | home
  | single
  | page
  | category
  | tag
  | postTypeArchive
  | author
  | date
  | archive
  | search
  | notFound
  | other
  deriving DecidableEq, Repr

namespace RequestKind

/-- The kinds and their stored names. -/
def names : List (String × RequestKind) :=
  [("front_page", .frontPage), ("home", .home), ("single", .single), ("page", .page),
    ("category", .category), ("tag", .tag), ("post_type_archive", .postTypeArchive),
    ("author", .author), ("date", .date), ("archive", .archive), ("search", .search),
    ("not_found", .notFound), ("other", .other)]

/-- The stored name. -/
def name : RequestKind → String
  | .frontPage => "front_page"
  | .home => "home"
  | .single => "single"
  | .page => "page"
  | .category => "category"
  | .tag => "tag"
  | .postTypeArchive => "post_type_archive"
  | .author => "author"
  | .date => "date"
  | .archive => "archive"
  | .search => "search"
  | .notFound => "not_found"
  | .other => "other"

/-- A kind from a document: its name, or an object with the name over null. -/
def ofNode? : Node → Option RequestKind
  | .map [(name, .null)] => List.lookup name names
  | node => node.text?.bind fun name => List.lookup name names

end RequestKind

/-- A visitor who is logged in. -/
structure User where
  id : Nat := 0
  login : String := ""
  displayName : String := ""
  email : String := ""
  avatarUrl : String := ""
  bio : String := ""
  url : String := ""
  roles : List String := []
  deriving DecidableEq, Repr

namespace User

/-- The names of a user's fields, in order. -/
def fieldNames : List String :=
  ["id", "login", "display_name", "email", "avatar_url", "bio", "url", "roles"]

/-- A user from a document. -/
def ofNode? (node : Node) : Option User := do
  let record ← Record.ofNode? fieldNames node
  return {
    id := ← record.get "id" Node.natural? 0
    login := ← record.get "login" Node.text? ""
    displayName := ← record.get "display_name" Node.text? ""
    email := ← record.get "email" Node.text? ""
    avatarUrl := ← record.get "avatar_url" Node.text? ""
    bio := ← record.get "bio" Node.text? ""
    url := ← record.get "url" Node.text? ""
    roles := ← record.get "roles" (Node.list? Node.text?) [] }

/-- The stored form of a user. -/
def toJson (user : User) : Json :=
  .ofMembers [("id", .ofNat user.id), ("login", .string user.login),
    ("display_name", .string user.displayName), ("email", .string user.email),
    ("avatar_url", .string user.avatarUrl), ("bio", .string user.bio), ("url", .string user.url),
    ("roles", .ofStrings user.roles)]

end User

/-- The identity of a site. -/
structure SiteInfo where
  name : String := ""
  description : String := ""
  url : String := ""
  logoUrl : String := ""
  adminEmail : String := ""
  language : String := "en-US"
  /-- the pattern of dates without one of their own -/
  dateFormat : String := "F j, Y"
  deriving DecidableEq, Repr

namespace SiteInfo

/-- The names of the fields, in order. -/
def fieldNames : List String :=
  ["name", "description", "url", "logo_url", "admin_email", "language", "date_format"]

/-- A site's identity from a document. -/
def ofNode? (node : Node) : Option SiteInfo := do
  let record ← Record.ofNode? fieldNames node
  return {
    name := ← record.get "name" Node.text? ""
    description := ← record.get "description" Node.text? ""
    url := ← record.get "url" Node.text? ""
    logoUrl := ← record.get "logo_url" Node.text? ""
    adminEmail := ← record.get "admin_email" Node.text? ""
    language := ← record.get "language" Node.text? "en-US"
    dateFormat := ← record.get "date_format" Node.text? "F j, Y" }

/-- The stored form of a site's identity. -/
def toJson (site : SiteInfo) : Json :=
  .ofMembers [("name", .string site.name), ("description", .string site.description),
    ("url", .string site.url), ("logo_url", .string site.logoUrl),
    ("admin_email", .string site.adminEmail), ("language", .string site.language),
    ("date_format", .string site.dateFormat)]

end SiteInfo

/-- A request. -/
structure Request where
  kind : RequestKind := .home
  /-- the post that a singular request is about -/
  post : Option Post := none
  /-- the posts of the loop -/
  posts : List Post := []
  /-- the visitor, if logged in -/
  user : Option User := none
  site : SiteInfo := {}
  archivePostType : Option String := none
  /-- menus as markup, by location -/
  menus : List (String × String) := []
  /-- widget areas as markup, by name -/
  widgetAreas : List (String × String) := []
  now : Instant
  deriving Repr

namespace Request

/-- The names of a request's fields, in order. -/
def fieldNames : List String :=
  ["kind", "post", "posts", "user", "site", "archive_post_type", "menus", "widget_areas", "now"]

/-- A request from a document; `clock` is the time of a request without one. -/
def ofNode? (clock : Instant) (node : Node) : Option Request := do
  let record ← Record.ofNode? fieldNames node
  return {
    kind := ← record.get "kind" RequestKind.ofNode? .home
    post := ← record.get "post" (Node.optional? Post.ofNode?) none
    posts := ← record.get "posts" (Node.list? Post.ofNode?) []
    user := ← record.get "user" (Node.optional? User.ofNode?) none
    site := ← record.get "site" SiteInfo.ofNode? {}
    archivePostType := ← record.get "archive_post_type" (Node.optional? Node.text?) none
    menus := ← record.get "menus" (Node.table? Node.text?) []
    widgetAreas := ← record.get "widget_areas" (Node.table? Node.text?) []
    now := ← record.get "now" Instant.ofNode? clock }

/-- A table of texts in stored form. -/
def tableJson (table : List (String × String)) : Json :=
  .ofMembers (table.map fun (key, value) => (key, .string value))

/-- The stored form of a request. -/
def toJson (request : Request) : Json :=
  .ofMembers [("kind", .string request.kind.name), ("post", .ofOption Post.toJson request.post),
    ("posts", .array (request.posts.map Post.toJson)),
    ("user", .ofOption User.toJson request.user), ("site", request.site.toJson),
    ("archive_post_type", .ofOption .string request.archivePostType),
    ("menus", tableJson request.menus), ("widget_areas", tableJson request.widgetAreas),
    ("now", request.now.toJson)]

/-- Whether the request is about one post.  A front page is when it has one. -/
def isSingular (request : Request) : Bool :=
  match request.kind with
  | .frontPage => request.post.isSome
  | .single | .page => true
  | _ => false

/-- The identifier of the post that the request is about. -/
def postId (request : Request) : Option Nat :=
  request.post.map (·.id)

/-- **The post of an identifier**: the post that the request is about, or else
    the first of its loop that has it. -/
def findPost (request : Request) (id : Nat) : Option Post :=
  (request.post.toList ++ request.posts).find? (·.id == id)

end Request

end PageLoom
