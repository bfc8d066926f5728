import PageLoom.Condition.Operator
import PageLoom.Document.Node
import PageLoom.Text.Search

/-!
# Rules — one fact compared with one expected value

    A rule names a fact of the request, an operator and the value it
    expects.  `Rule.holds` is its verdict over a source of facts.  Rules the
    source knows nothing about hold, so that a site keeps working when a
    fact disappears; a rule on post meta names its key inside the value, as
    `key:expected`.
-/

namespace PageLoom.Condition

open Text

/-- What a source of facts says about a known field. -/
inductive Fact
  | text (s : String)
  | list (items : List String)
  | bool (b : Bool)
  /-- the field has no value for this request -/
  | none
  deriving DecidableEq, Repr

/-- A source of facts, by field; a field that it does not know has none. -/
abbrev Facts := String → Option Fact

/-- The value that a rule expects. -/
inductive Expected
  | text (s : String)
  | bool (b : Bool)
  deriving DecidableEq, Repr

/-- The spelling of a truth value. -/
def boolText (b : Bool) : String :=
  if b then "true" else "false"

namespace Expected

/-- The expected value that a JSON value stands for: a number stands for its
    text, other values for the empty text. -/
def ofJson : Json → Expected
  | .string s => .text s
  | .bool b => .bool b
  | .number n => .text n.text
  | _ => .text ""

/-- The stored form. -/
def toJson : Expected → Json
  | .text s => .string s
  | .bool b => .bool b

/-- The expected value as text. -/
def asText : Expected → String
  | .text s => s
  | .bool b => boolText b

/-- The expected value as a truth value: the text `true` is true. -/
def isTruthy : Expected → Bool
  | .text s => s == "true"
  | .bool b => b

end Expected

namespace Fact

/-- Whether a list fact has an item. -/
def hasItem (item : String) : Fact → Bool
  | .list items => items.contains item
  | _ => false

/-- Whether a fact equals an expected text; a list fact, whether it has it. -/
def isText (expected : String) : Fact → Bool
  | .text s => s == expected
  | .list items => (Fact.list items).hasItem expected
  | .bool b => boolText b == expected
  | .none => false

/-- Whether an expected text occurs in a fact; in a list fact, in one of its
    items. -/
def includes (expected : String) : Fact → Bool
  | .text s => occursIn expected s
  | .list items => items.any (occursIn expected)
  | .bool b => occursIn expected (boolText b)
  | .none => false

/-- The verdict of an operator that is not negated.  A field without a value
    fails every operator; about any other fact an unknown operator gives no
    verdict. -/
def verdict? (fact : Fact) (operator : Operator) (expected : String) : Option Bool :=
  match fact, operator with
  | .none, _ => some false
  | fact, .is => some (fact.isText expected)
  | fact, .contains => some (fact.includes expected)
  | _, .unknown _ => Option.none
  | _, .isNot | _, .notContains => some false

/-- **Comparison** of a fact with an expected text: the verdict of the positive
    operator, turned round for a negated one.  Where there is no verdict the
    comparison holds. -/
def compare (fact : Fact) (operator : Operator) (expected : String) : Bool :=
  match fact.verdict? operator.positive expected with
  | some verdict => if operator.isNegated then !verdict else verdict
  | Option.none => true

end Fact

/-- A condition: a field, an operator and an expected value. -/
structure Rule where
  field : String := ""
  operator : Operator := .is
  value : Expected := .text ""
  deriving DecidableEq, Repr

namespace Rule

/-- The verdict on a truth value that is expected to equal another. -/
def agrees (operator : Operator) (actual expected : Bool) : Bool :=
  if operator.isNegated then actual != expected else actual == expected

/-- The verdict on post meta; a value without a colon never matches, and
    missing meta counts as empty. -/
def holdsMeta (facts : Facts) (operator : Operator) (value : String) : Bool :=
  match cutStringAt ':' value with
  | none => false
  | some (key, expected) =>
      ((facts ("meta:" ++ key)).getD (.text "")).compare operator expected

/-- The verdict of a rule with a known operator. -/
def holdsKnown (facts : Facts) (rule : Rule) : Bool :=
  if rule.field == "meta" then holdsMeta facts rule.operator rule.value.asText
  else
    match facts rule.field with
    | none => true
    | some fact =>
        match rule.field == "logged_in", fact with
        | true, .bool actual => agrees rule.operator actual rule.value.isTruthy
        | _, _ => fact.compare rule.operator rule.value.asText

/-- **The verdict of a rule**; a rule with an unknown operator holds. -/
def holds (facts : Facts) (rule : Rule) : Bool :=
  match rule.operator with
  | .unknown _ => true
  | _ => holdsKnown facts rule

/-- A rule from a document. -/
def ofNode? (node : Node) : Option Rule := do
  let record ← Record.ofNode? ["field", "operator", "value"] node
  return {
    field := ← record.get "field" Node.text? ""
    operator := ← record.get "operator" (fun n => n.text?.map Operator.ofName) .is
    value := ← record.get "value" (fun n => n.json?.map Expected.ofJson) (.text "") }

/-- The stored form of a rule. -/
def toJson (rule : Rule) : Json :=
  .ofMembers [("field", .string rule.field), ("operator", .string rule.operator.name),
    ("value", rule.value.toJson)]

end Rule

end PageLoom.Condition
