import PageLoom.Condition.Rule
import PageLoom.Request.Basic
import PageLoom.Site.Store

/-!
# Resolution — the template of a request

    Templates are stored under types.  The standard classifier reads the
    type off the kind of the request and, where one is involved, the post
    type; requests of other kinds have no type and so no template.

    Of the active templates of a type, in order of priority, the first
    whose conditions hold is chosen, over the facts that the request knows.
    Templates of equal priority keep the order in which they are given.
-/

namespace PageLoom

/-! ## Types -/

/-- What gives a request its template type. -/
abbrev Classifier := Request → Option String

/-- **The standard classifier.** -/
def Request.templateType (request : Request) : Option String :=
  match request.kind with
  | .frontPage => some "front-page"
  | .home => some "home"
  | .single => some ("single-" ++ (request.post.map (·.postType)).getD "post")
  | .page => some "page"
  | .category => some "archive-category"
  | .tag => some "archive-tag"
  | .postTypeArchive =>
      match request.archivePostType with
      | some postType => some ("archive-" ++ postType)
      | none => some "archive"
  | .author => some "archive-author"
  | .date => some "archive-date"
  | .archive => some "archive"
  | .search => some "search"
  | .notFound => some "404"
  | .other => none

/-! ## Facts -/

namespace Request

open Condition (Fact)

/-- The text of the post's meta value under a key; empty when it has none. -/
def metaText (request : Request) (key : String) : String :=
  ((request.post.bind fun post => Assoc.get? key post.metaValues).getD "")

/-- The post's format; `standard` when it has none. -/
def formatName (request : Request) : String :=
  ((request.post.bind (·.format)).filter (!·.isEmpty)).getD "standard"

/-- A fact about the post; a request without a post has no value for it. -/
def postFact (request : Request) (read : Post → Fact) : Fact :=
  (request.post.map read).getD .none

/-- A list fact about the post; empty without a post. -/
def postList (request : Request) (read : Post → List String) : Fact :=
  .list ((request.post.map read).getD [])

/-- **Facts**: the value of every field that a request knows. -/
def facts (request : Request) (field : String) : Option Fact :=
  match Text.afterLeadOf "meta:" field with
  | some key => some (.text (request.metaText key))
  | none =>
      match field with
      | "category" => some (request.postList fun post => post.categories.map (·.slug))
      | "tag" => some (request.postList fun post => post.tags.map (·.slug))
      | "post_format" => some (.text request.formatName)
      | "author" => some (request.postFact fun post => .text post.author.login)
      | "post_type" => some (request.postFact fun post => .text post.postType)
      | "logged_in" => some (.bool request.user.isSome)
      | "user_role" => some (.list ((request.user.map (·.roles)).getD []))
      | _ => none

end Request

/-! ## The choice -/

/-- **Resolution among templates**: the one that serves a type under facts. -/
def Template.resolve (templateType : String) (facts : Condition.Facts)
    (templates : List Template) : Option Template :=
  let candidates := templates.filter fun t => t.status.isActive && t.templateType == templateType
  (candidates.mergeSort fun a b => a.priority ≤ b.priority).find? (·.conditions.holds facts)

/-- **Resolution over a store**: the template of a request. -/
def Store.resolve (store : Store) (classifier : Classifier) (request : Request) :
    Option Template :=
  (classifier request).bind fun templateType =>
    Template.resolve templateType request.facts (store.templatesOfType templateType)

end PageLoom
