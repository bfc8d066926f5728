import PageLoom.Command.Grammar

/-!
# Commands — what the program can be asked to do

    A command renders a request, prints what a request resolves to, or
    confines or minifies a stylesheet.
-/

namespace PageLoom

/-- Where a text is read from. -/
inductive Input
  | file (path : String)
  | standardInput
  deriving DecidableEq, Repr

namespace Input

/-- The input that an operand names; a hyphen is the standard input. -/
def ofOperand (operand : String) : Input :=
  if operand == "-" then .standardInput else .file operand

/-- The operand that names an input. -/
def operand : Input → String
  | .file path => path
  | .standardInput => "-"

/-- How messages about reading name an input. -/
def name : Input → String
  | .file path => path
  | .standardInput => "stdin"

end Input

/-- The files of a site and of a request to it. -/
structure Visit where
  site : Input
  /-- the request; none is a visit to the home page -/
  request : Option Input
  deriving DecidableEq, Repr

/-- What the program can be asked to do. -/
inductive Command
  /-- render a request, as a document or as a fragment of it -/
  | render (visit : Visit) (fragment force : Bool)
  /-- print what a request resolves to -/
  | resolve (visit : Visit)
  /-- confine a stylesheet to a class -/
  | scope (input : Input) (cls : String) (minified : Bool)
  /-- minify a stylesheet -/
  | minify (input : Input)
  deriving DecidableEq, Repr

namespace Command

/-- What `render` takes. -/
def renderGrammar : Grammar :=
  { options := [('s', "site"), ('r', "request")], switches := ["fragment", "force"] }

/-- What `resolve` takes. -/
def resolveGrammar : Grammar :=
  { options := [('s', "site"), ('r', "request")] }

/-- What `scope` takes. -/
def scopeGrammar : Grammar :=
  { options := [('p', "prefix")], switches := ["minify"], operands := 1 }

/-- What `minify` takes. -/
def minifyGrammar : Grammar :=
  { operands := 1 }

/-- A path: any text but the empty one. -/
def path? (text : String) : Option String :=
  if text.isEmpty then none else some text

/-- The visit that options describe.  The site is always a file. -/
def visit? (given : Given) : Option Visit := do
  let site ← (given.value? "site").bind path?
  match given.value? "request" with
  | none => return ⟨.file site, none⟩
  | some text => return ⟨.file site, some (.ofOperand (← path? text))⟩

/-- The input that the operand names. -/
def input? (given : Given) : Option Input :=
  (given.operands.head?.bind path?).map .ofOperand

/-- **The command of a command line**; none when it is none. -/
def ofWords? : List String → Option Command
  | "render" :: words => do
      let given ← renderGrammar.read? words
      return .render (← visit? given) (given.isOn "fragment") (given.isOn "force")
  | "resolve" :: words => do
      let given ← resolveGrammar.read? words
      return .resolve (← visit? given)
  | "scope" :: words => do
      let given ← scopeGrammar.read? words
      return .scope (← input? given) (← given.value? "prefix") (given.isOn "minify")
  | "minify" :: words => do
      let given ← minifyGrammar.read? words
      return .minify (← input? given)
  | _ => none

/-- The inputs that a visit reads. -/
def visitInputs (visit : Visit) : List Input :=
  visit.site :: visit.request.toList

/-- The inputs that a command reads, in order. -/
def inputs : Command → List Input
  | .render visit _ _ => visitInputs visit
  | .resolve visit => visitInputs visit
  | .scope input _ _ => [input]
  | .minify input => [input]

end Command

end PageLoom
