import PageLoom.Json.Printer
import PageLoom.Request.Basic
import PageLoom.Text.Blank
import PageLoom.Text.Digits

/-!
# Contexts — what the tokens of a text are about

    A context is a request and a table of values.  The value `post_id`
    chooses the post that the post fields describe; without it they
    describe the post that the request is about.

    A value is shown by its text (`Json.display`), and some values count as
    empty (`Json.isBlankValue`).
-/

namespace PageLoom

/-- A request and values of its own. -/
structure Context where
  request : Request
  data : List (String × Json) := []
  deriving Repr

namespace Context

/-- The context with a value added or replaced. -/
def withValue (context : Context) (key : String) (value : Json) : Context :=
  { context with data := Assoc.insert key value context.data }

/-- The context whose post fields describe one post. -/
def forPost (request : Request) (id : Nat) : Context :=
  (Context.mk request []).withValue "post_id" (.ofNat id)

/-- The identifier that a value gives. -/
def idOf : Json → Option Nat
  | .number n => n.natural?
  | .string s => Text.word? (Text.trim s.toList)
  | _ => none

/-- The identifier of the post that the post fields describe. -/
def postId (context : Context) : Option Nat :=
  match Assoc.get? "post_id" context.data with
  | some value => idOf value
  | none => context.request.postId

/-- **The post** that the post fields describe. -/
def post? (context : Context) : Option Post :=
  match Assoc.get? "post_id" context.data with
  | some value => (idOf value).bind context.request.findPost
  | none => context.request.post

end Context

/-! ## Values that are shown -/

namespace Json

/-- **The text of a value** where it is shown: null and false show nothing,
    true shows `1`, arrays and objects their JSON text. -/
def display : Json → String
  | .string s => s
  | .number n => n.text
  | .bool true => "1"
  | .bool false => ""
  | .null => ""
  | value => value.print

/-- Whether a value counts as empty: null, false, zero, the empty text, the
    text `0`, and arrays and objects without items. -/
def isBlankValue : Json → Bool
  | .null => true
  | .bool b => !b
  | .number n => n.isZero
  | .string s => s.isEmpty || s == "0"
  | .array items => items.isEmpty
  | .object members => members.isEmpty

end Json

end PageLoom
