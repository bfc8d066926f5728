import PageLoom.Calendar.Pattern
import PageLoom.Content.Context
import PageLoom.Html.Encoding
import PageLoom.Html.Tag

/-!
# Fields — the values that tokens name

    Fields are registered by exact name or by what a name starts with.  A
    name is resolved by the field registered under it, or else by the one
    registered for its longest start; if that declines, by the values of
    the context, and at last by the empty text.
-/

namespace PageLoom

/-- What gives a field its value; none declines. -/
abbrev Resolver := String → Context → Option Json

/-- Resolvers by exact name and by the start of a name. -/
structure FieldRegistry where
  exact : List (String × Resolver) := []
  families : List (String × Resolver) := []

namespace FieldRegistry

/-- The registry with the resolver of a name added or replaced. -/
def register (fields : FieldRegistry) (name : String) (resolver : Resolver) : FieldRegistry :=
  { fields with exact := Assoc.insert name resolver fields.exact }

/-- The registry with the resolver of the names with one start added or
    replaced. -/
def registerFamily (fields : FieldRegistry) (lead : String) (resolver : Resolver) :
    FieldRegistry :=
  { fields with families := Assoc.insert lead resolver fields.families }

/-- The resolver of the longest start of a name. -/
def longest (name : String) : List (String × Resolver) → Option (String × Resolver)
  | [] => none
  | (lead, resolver) :: rest =>
      match longest name rest with
      | some (lead', resolver') =>
          if (Text.afterLeadOf lead name).isSome && lead'.length < lead.length then
            some (lead, resolver)
          else some (lead', resolver')
      | none => if (Text.afterLeadOf lead name).isSome then some (lead, resolver) else none

/-- The resolver of a name. -/
def lookup (fields : FieldRegistry) (name : String) : Option Resolver :=
  match Assoc.get? name fields.exact with
  | some resolver => some resolver
  | none => (longest name fields.families).map (·.2)

/-- **Resolution**: the value of a name in a context. -/
def resolve (fields : FieldRegistry) (name : String) (context : Context) : Json :=
  let resolved := (fields.lookup name).bind fun resolver => resolver name context
  ((resolved.or (Assoc.get? name context.data))).getD (.string "")

end FieldRegistry

namespace Field

open Html Text

/-- An image element with escaped source and description. -/
def image (source cls description : String) : String :=
  "<img src=\"" ++ escape source ++ "\" class=\"" ++ cls ++ "\" alt=\"" ++ escape description
    ++ "\">"

/-- An image element; nothing without a source. -/
def optionalImage (source cls description : String) : String :=
  if source.isEmpty then "" else image source cls description

/-- The year of the request. -/
def currentYear : Resolver := fun _ context =>
  some (.string (Pattern.format context.request.now "Y"))

/-- The date of the request, as the site writes dates. -/
def currentDate : Resolver := fun _ context =>
  some (.string (Pattern.format context.request.now context.request.site.dateFormat))

/-- Fields of the site. -/
def site : Resolver := fun name context =>
  let site := context.request.site
  match name with
  | "site_name" => some (.string site.name)
  | "site_description" => some (.string site.description)
  | "site_url" => some (.string site.url)
  | "site_logo" => some (.string site.logoUrl)
  | "site_logo_img" => some (.string (optionalImage site.logoUrl "codesite-logo" site.name))
  | "site_admin_email" => some (.string site.adminEmail)
  | "site_language" => some (.string site.language)
  | _ => none

/-- A link to a term. -/
def termLink (term : Term) : String :=
  "<a href=\"" ++ escape term.url ++ "\">" ++ escape term.name ++ "</a>"

/-- Links to terms, separated by commas. -/
def termLinks (terms : List Term) : String :=
  ", ".intercalate (terms.map termLink)

/-- A date as the site writes dates; nothing without one. -/
def dateText (context : Context) (date : Option Instant) : String :=
  (date.map fun t => Pattern.format t context.request.site.dateFormat).getD ""

/-- How many words of the content stand for a missing excerpt. -/
def excerptWords : Nat := 55

/-- The excerpt, or the first words of the content. -/
def excerpt (post : Post) : String :=
  if isBlankText post.excerpt then firstWords excerptWords post.content else post.excerpt

/-- Fields of a post. -/
def ofPost (context : Context) (post : Post) (name : String) : Option Json :=
  match name with
  | "post_title" => some (.string post.title)
  | "post_content" => some (.string post.content)
  | "post_excerpt" => some (.string (excerpt post))
  | "post_date" => some (.string (dateText context post.date))
  | "post_modified" => some (.string (dateText context post.modified))
  | "post_author" => some (.string post.author.displayName)
  | "post_author_avatar" => some (.string post.author.avatarUrl)
  | "post_author_bio" => some (.string post.author.bio)
  | "post_thumbnail" => some (.string post.thumbnailUrl)
  | "post_thumbnail_img" =>
      some (.string (optionalImage post.thumbnailUrl "codesite-thumbnail" post.title))
  | "post_categories" => some (.string (termLinks post.categories))
  | "post_tags" => some (.string (termLinks post.tags))
  | "post_id" => some (.ofNat post.id)
  | "post_url" => some (.string post.url)
  | "post_type" => some (.string post.postType)
  | "post_status" => some (.string post.status)
  | "post_comment_count" => some (.ofNat post.commentCount)
  | _ => none

/-- Fields of the post in hand. -/
def post : Resolver := fun name context =>
  context.post?.bind fun post => ofPost context post name

/-- Meta values of the post in hand, by key after the colon. -/
def postMeta : Resolver := fun name context => do
  let key ← afterLeadOf "post_meta:" name
  let post ← context.post?
  return .string ((Assoc.get? key post.metaValues).getD "")

/-- Fields of a visitor. -/
def ofUser (user : User) (name : String) : Option String :=
  match name with
  | "user_name" => some user.displayName
  | "user_login" => some user.login
  | "user_email" => some user.email
  | "user_avatar" => some user.avatarUrl
  | "user_avatar_img" => some (optionalImage user.avatarUrl "avatar" "")
  | "user_bio" => some user.bio
  | "user_url" => some user.url
  | _ => none

/-- Fields of the visitor; all empty when nobody is logged in. -/
def user : Resolver := fun name context =>
  match context.request.user with
  | some user => (ofUser user name).map .string
  | none => (ofUser {} name).map fun _ => .string ""

/-- Custom fields of the post in hand, by name after the colon. -/
def customField : Resolver := fun name context => do
  let key ← afterLeadOf "acf:" name
  let post ← context.post?
  Assoc.get? key post.customFields

/-- Menus, by location after the colon. -/
def menu : Resolver := fun name context => do
  let location ← afterLeadOf "menu:" name
  return .string ((Assoc.get? location context.request.menus).getD "")

/-- Widget areas, by name after the colon. -/
def widgetArea : Resolver := fun name context => do
  let area ← afterLeadOf "widget:" name
  return .string ((Assoc.get? area context.request.widgetAreas).getD "")

end Field

/-- **The built-in fields.** -/
def FieldRegistry.builtIn : FieldRegistry :=
  let fields : FieldRegistry := {}
  let fields := fields.register "current_year" Field.currentYear
  let fields := fields.register "current_date" Field.currentDate
  let fields := fields.registerFamily "site_" Field.site
  let fields := fields.registerFamily "post_" Field.post
  let fields := fields.registerFamily "post_meta:" Field.postMeta
  let fields := fields.registerFamily "user_" Field.user
  let fields := fields.registerFamily "acf:" Field.customField
  let fields := fields.registerFamily "menu:" Field.menu
  fields.registerFamily "widget:" Field.widgetArea

end PageLoom
