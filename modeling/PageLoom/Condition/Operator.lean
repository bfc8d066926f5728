/-!
# Operators and match modes — the words of condition rules

    A rule compares with one of four operators; a rule set combines its
    rules by one of two modes.  Both are stored by name.  An operator of an
    unknown name is kept, so that rules written by a newer editor still
    load; a mode of an unknown name is `any`.  An editor that checks its
    input before saving asks for the known names only.
-/

namespace PageLoom.Condition

/-- How a rule compares a fact with its expected value. -/
inductive Operator
  | is
  | isNot
  | contains
  | notContains
  /-- a name without meaning to this library -/
  | unknown (name : String)
  deriving DecidableEq, Repr

/-- How the rules of a set combine. -/
inductive MatchMode
  | all
  | any
  deriving DecidableEq, Repr

/-- Why a stored condition is refused by a strict reader. -/
inductive Fault
  /-- not JSON, or JSON of another shape -/
  | malformed
  | unknownOperator (name : String)
  | unknownMode (name : String)
  deriving DecidableEq, Repr

/-- The wording of a fault. -/
def Fault.message : Fault → String
  | .malformed => "invalid rule tree"
  | .unknownOperator name => "unknown operator '" ++ name ++ "'"
  | .unknownMode name => "unknown match mode '" ++ name ++ "' (expected 'all' or 'any')"

namespace Operator

/-- The stored name of an operator. -/
def name : Operator → String
  | .is => "is"
  | .isNot => "is_not"
  | .contains => "contains"
  | .notContains => "not_contains"
  | .unknown name => name

/-- The operator of a known name. -/
def known? (name : String) : Option Operator :=
  if name == "is" then some .is
  else if name == "is_not" then some .isNot
  else if name == "contains" then some .contains
  else if name == "not_contains" then some .notContains
  else none

/-- **Lenient reading**: an unknown name is kept. -/
def ofName (name : String) : Operator :=
  (known? name).getD (.unknown name)

/-- **Strict reading**: an unknown name is refused. -/
def ofNameStrict (name : String) : Except Fault Operator :=
  match known? name with
  | some operator => .ok operator
  | none => .error (.unknownOperator name)

/-- Whether the operator negates another. -/
def isNegated : Operator → Bool
  | .isNot | .notContains => true
  | _ => false

/-- The operator that a negated one negates; other operators themselves. -/
def positive : Operator → Operator
  | .isNot => .is
  | .notContains => .contains
  | operator => operator

/-- The operator with the opposite verdict; an unknown one itself. -/
def negation : Operator → Operator
  | .is => .isNot
  | .isNot => .is
  | .contains => .notContains
  | .notContains => .contains
  | .unknown name => .unknown name

end Operator

namespace MatchMode

/-- The stored name of a mode. -/
def name : MatchMode → String
  | .all => "all"
  | .any => "any"

/-- **Lenient reading**: any name but `all` stands for `any`. -/
def ofName (name : String) : MatchMode :=
  if name == "all" then .all else .any

/-- **Strict reading**: an unknown name is refused. -/
def ofNameStrict (name : String) : Except Fault MatchMode :=
  if name == "all" then .ok .all
  else if name == "any" then .ok .any
  else .error (.unknownMode name)

end MatchMode

end PageLoom.Condition
