import PageLoom.Condition.Rule
import PageLoom.Json.Reader
import PageLoom.Text.Blank

/-!
# Rule sets — the condition of a template

    A rule set holds when all or any of its rules hold; a set without rules
    always holds.  Sets are stored as JSON, often as JSON inside a JSON
    string, at any number of layers.  The lenient readers take anything and
    fall back to the set without rules; the strict reader reports what is
    wrong.  Peeling the layers ends because a string is shorter than the
    text it is read from.
-/

namespace PageLoom.Condition

open Text

/-- A list of rules and how they combine. -/
structure RuleSet where
  mode : MatchMode := .all
  rules : List Rule := []
  deriving DecidableEq, Repr

namespace RuleSet

/-- Whether the set has no rules, and so always holds. -/
def isUnconditional (set : RuleSet) : Bool :=
  set.rules.isEmpty

/-- **The verdict of a rule set.** -/
def holds (facts : Facts) (set : RuleSet) : Bool :=
  set.rules.isEmpty ||
    match set.mode with
    | .all => set.rules.all (·.holds facts)
    | .any => set.rules.any (·.holds facts)

/-- A rule set from a document. -/
def ofNode? (node : Node) : Option RuleSet := do
  let record ← Record.ofNode? ["match", "rules"] node
  return {
    mode := ← record.get "match" (fun n => n.text?.map MatchMode.ofName) .all
    rules := ← record.get "rules" (Node.list? Rule.ofNode?) [] }

/-- The stored form of a rule set. -/
def toJson (set : RuleSet) : Json :=
  .ofMembers [("match", .string set.mode.name), ("rules", .array (set.rules.map Rule.toJson))]

/-- A rule set from a JSON value that is not a string: an object of the stored
    form, anything else the set without rules. -/
def ofObject (value : Json) : RuleSet :=
  match value with
  | .object _ => (ofNode? (Node.ofJson value)).getD {}
  | _ => {}

/-- **Lenient reading** of stored text, through any number of string layers. -/
def ofText (text : String) : RuleSet :=
  if isBlankText text then {}
  else
    match _value : Json.read text with
    | none => {}
    | some (.string inner) => ofText inner
    | some value => ofObject value
termination_by text.toList.length
decreasing_by
  have := Json.length_of_read_string _value
  omega

/-- **Lenient reading** of a decoded value. -/
def ofJson : Json → RuleSet
  | .string text => ofText text
  | value => ofObject value

/-- The fault of a match mode that is written in a value, if it is a text
    without meaning. -/
def checkMode (value : Json) : Except Fault Unit :=
  match (value.member? "match").bind Json.string? with
  | none => .ok ()
  | some name => (MatchMode.ofNameStrict name).map fun _ => ()

/-- The fault of the first rule whose operator is unknown. -/
def checkOperators : List Rule → Except Fault Unit
  | [] => .ok ()
  | rule :: rest =>
      match rule.operator with
      | .unknown name => .error (.unknownOperator name)
      | _ => checkOperators rest

/-- **Strict reading** of stored text: only the stored form itself, with known
    mode and operators. -/
def ofTextStrict (text : String) : Except Fault RuleSet := do
  match Json.read text with
  | none => .error .malformed
  | some value =>
      checkMode value
      match ofNode? (Node.ofJson value) with
      | none => .error .malformed
      | some set =>
          checkOperators set.rules
          return set

end RuleSet

end PageLoom.Condition
