import PageLoom.Assoc
import PageLoom.Number.Shortest

/-!
# JSON values — the dynamic data of pages

    Custom fields, settings and context data are JSON values.  A number is
    an integer of 64 bits (with or without sign) or a finite double; an
    object keeps its members in ascending order of keys, each key once.
-/

namespace PageLoom

/-- A JSON number: an integer of at most 64 bits, or a finite double. -/
inductive Number
  | int (n : Int)
  | real (x : Binary64)
  deriving DecidableEq, Repr

/-- A JSON value.  The members of an object stand in ascending order of keys,
    each key once. -/
inductive Json
  | null
  | bool (b : Bool)
  | number (n : Number)
  | string (s : String)
  | array (items : List Json)
  | object (members : List (String × Json))
  deriving Repr

instance : Inhabited Json := ⟨.null⟩

namespace Number

/-- The greatest signed integer of 64 bits. -/
def greatestSigned : Int := 9223372036854775807

/-- How numbers are written: positionally from `0.00001` to below `10^16`,
    otherwise with a signed exponent. -/
def style : DecimalStyle := ⟨-4, 16, true⟩

/-- The text of a number. -/
def text : Number → String
  | .int n => toString n
  | .real x => style.write x

/-- The number as an unsigned integer, if it is written as one. -/
def natural? : Number → Option Nat
  | .int n => if 0 ≤ n then some n.toNat else none
  | .real _ => none

/-- The number as a signed integer of 64 bits, if it is written as an integer
    in that range. -/
def integer? : Number → Option Int
  | .int n => if n ≤ greatestSigned then some n else none
  | .real _ => none

/-- Whether the number is zero. -/
def isZero : Number → Bool
  | .int n => n == 0
  | .real x => x.isZero

end Number

namespace Json

/-- The object with the given members; of several values of one key the last
    stays. -/
def ofMembers (members : List (String × Json)) : Json :=
  .object (Assoc.ofList members)

/-- A natural number. -/
def ofNat (n : Nat) : Json :=
  .number (.int n)

/-- An array of strings. -/
def ofStrings (items : List String) : Json :=
  .array (items.map .string)

/-- A value that may be absent, absent as null. -/
def ofOption {α : Type} (encode : α → Json) : Option α → Json
  | none => .null
  | some a => encode a

/-- The member of an object under a key. -/
def member? (key : String) : Json → Option Json
  | .object members => Assoc.get? key members
  | _ => none

/-- The string, if the value is one. -/
def string? : Json → Option String
  | .string s => some s
  | _ => none

end Json

end PageLoom
