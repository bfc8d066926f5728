import PageLoom.Content.Context
import PageLoom.Content.Field
import PageLoom.Content.Filter
import PageLoom.Content.Token

/-!
# Substitution — a text with its tokens replaced, and the stages after it

    Every token is replaced by the displayed value of its field after its
    filters, left to right; literal characters are copied and substituted
    text is not read again.

    A stage edits a fragment of markup after substitution.  Its guard makes
    a substituted value inert for it, so that the text of posts and users is
    never read as the stage's own language: `fillWith` hands each value to a
    guard.  Stages run in order, each on what the one before it wrote; a
    value is guarded for the last stage first, so that every stage takes off
    its own layer.
-/

namespace PageLoom

/-- Fields and filters. -/
structure Engine where
  fields : FieldRegistry := .builtIn
  filters : FilterRegistry := .builtIn

namespace Engine

open Content

/-- The text of a token. -/
def evaluate (engine : Engine) (context : Context) (token : Token) : String :=
  let value := token.filters.foldl
    (fun value call => engine.filters.apply call.name value call.arg context)
    (engine.fields.resolve token.field context)
  value.display

/-- The characters of a piece, values guarded. -/
def fillPiece (engine : Engine) (guard : String → String) (context : Context) :
    Piece → List Char
  | .literal c => [c]
  | .token token => (guard (engine.evaluate context token)).toList

/-- **Substitution with a guard** on the values. -/
def fillWith (engine : Engine) (guard : String → String) (context : Context)
    (text : String) : String :=
  String.ofList ((pieces text.toList).flatMap (engine.fillPiece guard context))

/-- **Substitution.** -/
def fill (engine : Engine) (context : Context) (text : String) : String :=
  engine.fillWith id context text

end Engine

/-! ## Stages -/

/-- What a stage makes of a fragment, and the guard that keeps a value out of
    its reach. -/
structure Stage where
  edit : Context → String → String
  guard : String → String := id

namespace Stage

/-- **Running stages** in order. -/
def run (stages : List Stage) (context : Context) (fragment : String) : String :=
  stages.foldl (fun text stage => stage.edit context text) fragment

/-- **Guarding a value** for every stage, the last one first. -/
def guardAll (stages : List Stage) (value : String) : String :=
  stages.foldr (fun stage text => stage.guard text) value

end Stage

end PageLoom
