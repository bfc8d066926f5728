import PageLoom.Content.Engine
import PageLoom.Html.Encoding
import PageLoom.Asset.Collection
import PageLoom.Request.Basic
import PageLoom.Shortcode.Expansion
import PageLoom.Site.Resolver

/-!
# Rendering pages

    A page has a header, a main part and a footer.  An override of the post
    comes first, then the template of the request, then the defaults of the
    site, whose main part may be the post loop.  Rendering never fails: what
    is missing or not active leaves a gap.  Every source that is rendered
    hands in its assets on the way.  A document is the shell around a
    rendered page.
-/

namespace PageLoom

/-! ## The post loop -/

namespace PostLoop

/-- The message of a page that was not found. -/
def notFoundMessage : String :=
  "<div class=\"codesite-404\"><h1>Page Not Found</h1>"
    ++ "<p>The page you are looking for could not be found.</p></div>"

/-- The article of a post. -/
def article (post : Post) : String :=
  "<article class=\"codesite-post\"><h1 class=\"codesite-post-title\">" ++ post.title
    ++ "</h1><div class=\"codesite-post-content\">" ++ post.content ++ "</div></article>"

/-- The posts to show: those of the loop, or else the post of the request. -/
def postsOf (request : Request) : List Post :=
  if request.posts.isEmpty then request.post.toList else request.posts

/-- **The content**: one article per post, or a message when nothing was
    found. -/
def render (request : Request) : String :=
  let posts := postsOf request
  if posts.isEmpty then
    if request.kind == .notFound then notFoundMessage else ""
  else String.join (posts.map article)

end PostLoop

/-! ## Pages -/

/-- What turns requests into pages. -/
structure Renderer where
  store : Store
  engine : Engine := {}
  stages : List Stage := [Shortcodes.stage {}]
  classifier : Classifier := Request.templateType
  defaultContent : Request → String := PostLoop.render

/-- Rendering, which collects assets. -/
abbrev Rendering := StateM Assets

/-- A rendered page: its body and what goes into head and foot. -/
structure RenderedPage where
  html : String := ""
  css : String := ""
  js : String := ""
  deriving DecidableEq, Repr

namespace Renderer

/-- The template of a request. -/
def template? (r : Renderer) (request : Request) : Option Template :=
  r.store.resolve r.classifier request

/-- The override of the post that a singular request is about. -/
def override? (r : Renderer) (request : Request) : Option Override :=
  if request.isSingular then request.postId.bind r.store.overrideFor? else none

/-- **Whether the site takes over a request**: never when it is disabled,
    always when it replaces the theme, otherwise when it has an override or
    a template for it. -/
def takesOver (r : Renderer) (request : Request) : Bool :=
  let settings := r.store.settings
  settings.enabled
    && (settings.themeOverride || (r.override? request).isSome || (r.template? request).isSome)

/-- **A fragment of markup**: its tokens replaced, then run through the
    stages. -/
def fragment (r : Renderer) (context : Context) (markup : String) : String :=
  if markup.isEmpty then ""
  else Stage.run r.stages context (r.engine.fillWith (Stage.guardAll r.stages) context markup)

/-- The markup of a block in its wrapper, if it has one. -/
def wrapBlock (block : Block) (html : String) : String :=
  match block.styleScope with
  | .scoped => "<div class=\"codesite-block " ++ block.scopeClass ++ "\">" ++ html ++ "</div>"
  | .global => html

/-- A block; nothing unless it is active. -/
def block (r : Renderer) (context : Context) (block : Block) : Rendering String := do
  if block.status.isActive then
    modify (·.addBlock block)
    return wrapBlock block (r.fragment context block.html)
  else return ""

/-- The block with an identifier, if there is one. -/
def blockById (r : Renderer) (context : Context) (id : Nat) : Rendering String :=
  match r.store.block? id with
  | some block => r.block context block
  | none => return ""

/-- The texts of parts rendered in order, joined. -/
def inOrder {α : Type} (render : α → Rendering String) : List α → Rendering String
  | [] => return ""
  | a :: rest => do
      let first ← render a
      return first ++ (← inOrder render rest)

/-- A layout: its blocks, or its own markup; nothing unless it is active. -/
def layout (r : Renderer) (context : Context) (layout : Layout) : Rendering String := do
  if !layout.status.isActive then return ""
  else if layout.usesBlocks then inOrder (r.blockById context) layout.blockOrder
  else
    modify (·.addSource .layout layout.id layout.name layout.customCss layout.customJs)
    return r.fragment context layout.customHtml

/-- The layout with an identifier, if one is given and exists. -/
def layoutById (r : Renderer) (context : Context) (id : Option Nat) : Rendering String :=
  match id.bind r.store.layout? with
  | some layout => r.layout context layout
  | none => return ""

/-- An entry of a content list. -/
def item (r : Renderer) (context : Context) : ContentItem → Rendering String
  | .block id => r.blockById context id
  | .markup text => return r.fragment context text

/-- A content list and the markup after it. -/
def content (r : Renderer) (context : Context) (items : List ContentItem) (markup : String) :
    Rendering String := do
  return (← inOrder (r.item context) items) ++ r.fragment context markup

/-- The main element of a page. -/
def mainElement (cls html : String) : String :=
  "<main class=\"codesite-content " ++ cls ++ "\">" ++ html ++ "</main>"

/-- The main part of a template. -/
def templateMain (r : Renderer) (context : Context) (t : Template) : Rendering String := do
  return mainElement ("codesite-template-" ++ toString t.id)
    (← r.content context t.content t.customHtml)

/-- Hands in the assets of a template itself. -/
def templateAssets (t : Template) : Rendering Unit :=
  modify (·.addSource .template t.id t.name t.customCss t.customJs)

/-- **A page from a template**: header, main part, footer. -/
def template (r : Renderer) (context : Context) (t : Template) : Rendering String := do
  let header ← r.layoutById context t.headerLayout
  let main ← r.templateMain context t
  let footer ← r.layoutById context t.footerLayout
  templateAssets t
  return header ++ main ++ footer

/-- Whether an override brings its own header, main part and footer. -/
def ownParts : OverrideType → Bool × Bool × Bool
  | .full => (true, true, true)
  | .header => (true, false, false)
  | .footer => (false, false, true)
  | .content => (false, true, false)

/-- The main part of an override. -/
def overrideMain (r : Renderer) (context : Context) (o : Override) : Rendering String := do
  return mainElement "codesite-override" (← r.content context o.content o.customHtml)

/-- **A page from an override.**  The parts it does not bring come from the
    template; the template's own assets come along with its main part
    only. -/
def override (r : Renderer) (context : Context) (o : Override) (t : Option Template) :
    Rendering String := do
  let (ownHeader, ownMain, ownFooter) := ownParts o.overrideType
  let borrowed := if ownMain then none else t
  let header ← r.layoutById context
    (if ownHeader then o.headerLayout else t.bind (·.headerLayout))
  let main ←
    if ownMain then r.overrideMain context o
    else
      match borrowed with
      | some t => r.templateMain context t
      | none => pure ""
  let footer ← r.layoutById context
    (if ownFooter then o.footerLayout else t.bind (·.footerLayout))
  match borrowed with
  | some t => templateAssets t
  | none => pure ()
  modify (·.addSource .override o.postId ("Post " ++ toString o.postId) o.customCss o.customJs)
  return header ++ main ++ footer

/-- **A page from the defaults** of the site. -/
def defaults (r : Renderer) (request : Request) : Rendering String := do
  let context : Context := { request }
  let settings := r.store.settings
  let header ← r.layoutById context settings.defaultHeader
  let main ←
    match settings.defaultMainLayout with
    | some id => r.layoutById context (some id)
    | none => pure (r.defaultContent request)
  let footer ← r.layoutById context settings.defaultFooter
  return header ++ mainElement "codesite-default" main ++ footer

/-- **The body of a request's page.** -/
def request (r : Renderer) (request : Request) : Rendering String := do
  modify Assets.forRequest
  match r.override? request, r.template? request with
  | some o, t => r.override (.forPost request o.postId) o t
  | none, some t => r.template { request } t
  | none, none => r.defaults request

/-- The stylesheets of a page as they go into its head. -/
def headCss (r : Renderer) (assets : Assets) : String :=
  let settings := r.store.settings
  match settings.outputMode with
  | .inline => assets.styles.elements settings.globalCss
  | .file =>
      let merged := assets.styles.merged settings.globalCss settings.minifyOutput
      if Text.isBlankText merged then ""
      else "<style id='codesite-css'>\n" ++ merged ++ "\n</style>"

/-- The scripts of a page as they go to its foot. -/
def footJs (r : Renderer) (assets : Assets) : String :=
  assets.scripts.element r.store.settings.globalJs

/-- **A page** rendered with assets of its own. -/
def page (r : Renderer) (request : Request) : RenderedPage :=
  let (html, assets) := (r.request request).run {}
  { html, css := r.headCss assets, js := r.footJs assets }

end Renderer

/-! ## Documents -/

namespace Document

open Html

/-- The title of a page: that of its post and of the site, as far as they have
    one. -/
def title (request : Request) : String :=
  let siteName := request.site.name
  match request.post with
  | some post =>
      if request.isSingular && !post.title.isEmpty then
        if siteName.isEmpty then post.title else post.title ++ " - " ++ siteName
      else siteName
  | none => siteName

/-- Markup on lines of its own; nothing when it is blank. -/
def part (markup : String) : String :=
  let markup := Text.trimmedEnd markup
  if markup.isEmpty then "" else markup ++ "\n"

/-- **The document** of a rendered page. -/
def ofPage (page : RenderedPage) (request : Request) : String :=
  "<!DOCTYPE html>\n<html lang=\"" ++ escape request.site.language ++ "\">\n"
    ++ "<head>\n<meta charset=\"utf-8\">\n"
    ++ "<meta name=\"viewport\" content=\"width=device-width, initial-scale=1\">\n"
    ++ "<title>" ++ escape (title request) ++ "</title>\n"
    ++ part page.css ++ "</head>\n<body>\n" ++ part page.html ++ part page.js
    ++ "</body>\n</html>\n"

end Document

end PageLoom
