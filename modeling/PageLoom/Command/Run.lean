import PageLoom.Command.Basic
import PageLoom.Logic.Template
import PageLoom.Page.Renderer
import PageLoom.Yaml.Tree

/-!
# Running commands — from the texts of inputs to an output

    A run is a function of the texts that its inputs hold and of the time.
    It gives the text to print or the reason why there is none.  The site is
    read before the request, so a run that lacks both names the site.
-/

namespace PageLoom

/-- The text of every input that can be read. -/
abbrev Texts := Input → Option String

namespace Command

/-- Why a run has no output. -/
inductive Failure
  /-- the site cannot be read or is malformed -/
  | badSite (input : Input)
  /-- an input cannot be read -/
  | unreadable (input : Input)
  /-- the request is malformed -/
  | badRequest (input : Input)
  /-- the site does not take over the request -/
  | notTakenOver
  deriving DecidableEq, Repr

namespace Failure

/-- The wording of a failure. -/
def message : Failure → String
  | .badSite input => "failed to load site fixture " ++ input.operand
  | .unreadable input => "failed to read " ++ input.name
  | .badRequest input => "failed to parse request " ++ input.operand
  | .notTakenOver =>
      "the site does not take over this request; pass --force to render it anyway"

end Failure

/-- The text of an input. -/
def text (texts : Texts) (input : Input) : Except Failure String :=
  match texts input with
  | some text => .ok text
  | none => .error (.unreadable input)

/-- The store of the site in an input. -/
def loadSite (texts : Texts) (input : Input) : Except Failure Store :=
  match (texts input).bind (Yaml.decode {} Site.ofNode?) with
  | some site => .ok (.ofSite site)
  | none => .error (.badSite input)

/-- The request in an input; the home page when there is none. -/
def loadRequest (texts : Texts) (clock : Instant) : Option Input → Except Failure Request
  | none => .ok { now := clock }
  | some input => do
      match Yaml.decode { now := clock } (Request.ofNode? clock) (← text texts input) with
      | some request => return request
      | none => throw (.badRequest input)

/-- The renderer of a store: shortcodes, and template logic unless the settings
    turn it off. -/
def rendererOf (store : Store) : Renderer :=
  if store.settings.templateLogic then { store, stages := [Shortcodes.stage {}, Logic.stage] }
  else { store }

/-- The renderer and the request of a visit. -/
def load (texts : Texts) (clock : Instant) (visit : Visit) :
    Except Failure (Renderer × Request) := do
  let store ← loadSite texts visit.site
  let request ← loadRequest texts clock visit.request
  return (rendererOf store, request)

/-- A text as a line. -/
def line (text : String) : String :=
  text ++ "\n"

/-- The line about the override of a post. -/
def overrideLine (postId : Nat) (type : OverrideType) : String :=
  line ("override: post " ++ toString postId ++ " (" ++ type.name ++ ")")

/-- The line about a template of a type. -/
def templateLine (templateType : String) (id : Nat) (name : String) (priority : Int) : String :=
  line (templateType ++ ": template " ++ toString id ++ " \"" ++ name
    ++ "\" (priority " ++ toString priority ++ ")")

/-- The part about the override of a request; empty when it has none. -/
def overridePart (renderer : Renderer) (request : Request) : String :=
  match renderer.override? request with
  | some o => overrideLine o.postId o.overrideType
  | none => ""

/-- The part about the template of a request. -/
def templatePart (renderer : Renderer) (request : Request) : String :=
  match renderer.classifier request with
  | none => line "request has no template type"
  | some templateType =>
      match renderer.template? request with
      | some t => templateLine templateType t.id t.name t.priority
      | none => line (templateType ++ ": no template")

/-- What a request resolves to, in one or two lines. -/
def resolution (renderer : Renderer) (request : Request) : String :=
  overridePart renderer request ++ templatePart renderer request

/-- **Running a command.** -/
def run (texts : Texts) (clock : Instant) : Command → Except Failure String
  | .render visit fragment force => do
      let (renderer, request) ← load texts clock visit
      if !force && !renderer.takesOver request then throw .notTakenOver
      if fragment then return line ((renderer.request request).run {}).1
      else return Document.ofPage (renderer.page request) request
  | .resolve visit => do
      let (renderer, request) ← load texts clock visit
      return resolution renderer request
  | .scope input cls minified => do
      let confined := Css.scope (← text texts input) cls
      return line (if minified then Css.minify confined else confined)
  | .minify input => do
      return line (Css.minify (← text texts input))

end Command

end PageLoom
