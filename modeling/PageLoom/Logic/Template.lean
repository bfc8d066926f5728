import PageLoom.Content.Context
import PageLoom.Html.Tag
import PageLoom.Html.Encoding
import PageLoom.Logic.Statement
import PageLoom.Logic.Value
import PageLoom.Content.Engine
import PageLoom.Text.Case

/-!
# Templates — rendering, and template logic as a stage

    Expressions are evaluated and statements rendered by recursion on the
    tree, over a scope of names.  Rendering fails as a whole when an
    expression asks undefined for an attribute, uses an unknown filter or
    loops over what has no items; what is not reached cannot fail.

    Templates see the values of the context and, under fixed names, the
    post, the loop, the visitor, the site and the kind of the request.  A
    fragment that cannot be rendered passes unchanged.  The guard turns
    every brace that could open a tag into a printed string, so that the
    text of a value prints as it is.

    The filters are `upper`, `lower`, `default` and `length` of the language
    and the three that the site adds; of a loop its position and length are
    known, not `cycle`, `changed`, `depth` or its neighbours.  There are no
    global names, and printed values are not escaped.
-/

namespace PageLoom.Logic

open Text

/-! ## Rendering -/

/-- Names and their values, innermost first. -/
abbrev Scope := List (String × Value)

/-- The value of a name. -/
def Scope.value (scope : Scope) (name : String) : Value :=
  (scope.lookup name).getD .undefined

/-- The natural number that an optional argument gives: none when it is
    missing, undefined or null. -/
def count? : List Value → Option (Option Nat)
  | [] | [.undefined] | [.known .null] => some none
  | [v] =>
      match v.index? with
      | some n => if n < 0 then none else some (some n.toNat)
      | none => none
  | _ => none

/-- A value in the place of undefined, and with the flag also in the place of
    what counts as false. -/
def defaultValue (v : Value) : List Value → Option Value
  | [] => some (if isUndefined v then .known (.string "") else v)
  | [other] => some (if isUndefined v then orEmpty other else v)
  | [other, .known (.bool lax)] =>
      some (if isUndefined v || (lax && !v.isTruthy) then orEmpty other else v)
  | [other, .undefined] | [other, .known .null] =>
      some (if isUndefined v then orEmpty other else v)
  | _ => none
where
  /-- whether a value is undefined -/
  isUndefined : Value → Bool
    | .undefined => true
    | _ => false
  /-- an argument, or the empty text when it is undefined or null -/
  orEmpty : Value → Value
    | .undefined | .known .null => .known (.string "")
    | other => other

/-- A text made from the text of a value. -/
def mapText (f : List Char → List Char) (v : Value) : List Value → Option Value
  | [] => some (.known (.string (String.ofList (f v.text))))
  | _ => none

/-- The number of characters, items or members of a value. -/
def length? (v : Value) : List Value → Option Value
  | [] =>
      match v with
      | .known (.string s) => some (.known (.ofNat s.length))
      | .known (.array items) => some (.known (.ofNat items.length))
      | .known (.object members) => some (.known (.ofNat members.length))
      | _ => none
  | _ => none

/-- How many words `words` keeps without an argument. -/
def defaultWords : Nat := 20

/-- **Filters** of the template language. -/
def applyFilter (name : String) (v : Value) (args : List Value) : Option Value :=
  match name with
  | "upper" => mapText upper v args
  | "lower" => mapText lower v args
  | "default" => defaultValue v args
  | "length" => length? v args
  | "words" => (count? args).map fun count =>
      .known (.string (Html.firstWords (count.getD defaultWords) (String.ofList v.text)))
  | "esc_url" => mapText (fun cs => (Html.cleanUrl (String.ofList cs)).toList) v args
  | "text" => if args.isEmpty then some (.known (.string v.toJson.display)) else none
  | _ => none

/-- The JSON values that are known, undefined as null. -/
def listValue (items : List Value) : Value :=
  .known (.array (items.map Value.toJson))

mutual
/-- **Evaluation** of an expression. -/
def eval (scope : Scope) : Expr → Option Value
  | .constant j => some (.known j)
  | .list items => (evalAll scope items).map listValue
  | .name s => some (scope.value s)
  | .attribute target key => (eval scope target).bind (Value.attribute? key)
  | .item target index => do
      let t ← eval scope target
      let i ← eval scope index
      t.item? i
  | .negated operand => (eval scope operand).bind Value.negated?
  | .compare how left right => do
      let a ← eval scope left
      let b ← eval scope right
      return .known (.bool (Value.compareBy how a b))
  | .both left right => do
      let a ← eval scope left
      if a.isTruthy then eval scope right else return a
  | .either left right => do
      let a ← eval scope left
      if a.isTruthy then return a else eval scope right
  | .isFalse operand => (eval scope operand).map fun v => .known (.bool !v.isTruthy)
  | .filter name operand args => do
      let v ← eval scope operand
      let args ← evalAll scope args
      applyFilter name v args

/-- Evaluation of expressions in order. -/
def evalAll (scope : Scope) : List Expr → Option (List Value)
  | [] => some []
  | e :: rest => do return (← eval scope e) :: (← evalAll scope rest)
end

/-- What a loop says about itself: the position and the number of items. -/
def loopValue (position total : Nat) : Value :=
  .known (.ofMembers
    [("index", .ofNat (position + 1)), ("index0", .ofNat position),
      ("revindex", .ofNat (total - position)), ("revindex0", .ofNat (total - position - 1)),
      ("first", .bool (position == 0)), ("last", .bool (position + 1 == total)),
      ("length", .ofNat total)])

/-- The texts of the items of a loop, in order, given how one is rendered. -/
def renderItems (render : Nat → Json → Option (List Char)) (position : Nat) :
    List Json → Option (List Char)
  | [] => some []
  | item :: rest => do
      return (← render position item) ++ (← renderItems render (position + 1) rest)

mutual
/-- The text of a statement. -/
def renderOne (scope : Scope) : Statement → Option (List Char)
  | .text cs => some cs
  | .print e => (eval scope e).map Value.text
  | .choice branches otherwise => do
      match ← renderChosen scope branches with
      | some text => return text
      | none => renderAll scope otherwise
  | .loop binder items body otherwise => do
      let items ← (← eval scope items).loopItems?
      if items.isEmpty then renderAll scope otherwise
      else
        renderItems
          (fun position item =>
            renderAll
              (("loop", loopValue position items.length) :: (binder, .known item) :: scope) body)
          0 items

/-- The text of the first branch whose condition holds, if there is one. -/
def renderChosen (scope : Scope) :
    List (Expr × List Statement) → Option (Option (List Char))
  | [] => some none
  | (condition, body) :: rest => do
      if (← eval scope condition).isTruthy then return some (← renderAll scope body)
      else renderChosen scope rest

/-- **Rendering** statements in order. -/
def renderAll (scope : Scope) : List Statement → Option (List Char)
  | [] => some []
  | s :: rest => do return (← renderOne scope s) ++ (← renderAll scope rest)
end

/-! ## The stage -/

/-- The names that a fragment sees. -/
def scopeOf (context : Context) : Scope :=
  let request := context.request
  [("post", .known (.ofOption Post.toJson context.post?)),
    ("posts", .known (.array (request.posts.map Post.toJson))),
    ("user", .known (.ofOption User.toJson request.user)),
    ("site", .known request.site.toJson),
    ("request", .known (.string request.kind.name))]
    ++ context.data.map fun (key, value) => (key, .known value)

/-- Whether a fragment has a tag that prints or decides. -/
def hasTag (text : List Char) : Bool :=
  occurs ['{', '%'] text || occurs ['{', '{'] text

/-- The text of a template; none when it cannot be read or rendered. -/
def render? (context : Context) (text : List Char) : Option (List Char) :=
  (readTemplate text).bind (renderAll (scopeOf context))

/-- **The edited fragment**: the text of the template, or the fragment itself
    when it has no tags or cannot be rendered. -/
def edit (context : Context) (fragment : String) : String :=
  let text := fragment.toList
  if hasTag text then ((render? context text).map String.ofList).getD fragment else fragment

/-- Whether a character could open a tag before the text `rest`. -/
def couldOpen (isFirst : Bool) (c : Char) (rest : List Char) : Bool :=
  if c == '{' then isFirst || rest.isEmpty || opensTag rest
  else isFirst && (c == '%' || c == '#')

/-- A character as a printed string. -/
def printed (c : Char) : List Char :=
  ['{', '{', ' ', '\'', c, '\'', ' ', '}', '}']

/-- A text with every character that could open a tag as a printed string. -/
def guardFrom (isFirst : Bool) : List Char → List Char
  | [] => []
  | c :: cs => (if couldOpen isFirst c cs then printed c else [c]) ++ guardFrom false cs

/-- **The guard** of a value. -/
def guardValue (value : String) : String :=
  String.ofList (guardFrom true value.toList)

/-- The stage of template logic. -/
def stage : Stage :=
  { edit, guard := guardValue }

end PageLoom.Logic
