import PageLoom.Json.Basic
import PageLoom.Logic.Expression

/-!
# Values of the template language

    A value is a JSON value or undefined, which is what a missing name,
    attribute or item gives.  Undefined shows as nothing, is false, and has
    no attributes to ask for.  Truth values and numbers are comparable with
    each other; everything else is ordered within its kind, and kinds among
    each other.

    No expression gives anything else: functions, iterators, texts marked as
    safe and objects of the host program are left out.
-/

namespace PageLoom.Logic

/-- A JSON value, or none. -/
inductive Value
  | undefined
  | known (j : Json)
  deriving Repr

/-- Numbers as text: never with an exponent. -/
def plainStyle : DecimalStyle := ⟨-400, 400, false⟩

/-- Numbers inside lists and objects: from `0.0001` to below `10^16` without
    an exponent. -/
def itemStyle : DecimalStyle := ⟨-3, 16, false⟩

/-- Whether a character is written as a code inside lists and objects. -/
def isHiddenChar (c : Char) : Bool :=
  let n := c.toNat
  n < 0x20 || (0x7F ≤ n && n ≤ 0x9F) || n == 0xAD || (0x200B ≤ n && n ≤ 0x200F)
    || (0x2028 ≤ n && n ≤ 0x202E) || (0x2060 ≤ n && n ≤ 0x206F) || n == 0xFEFF
    || (0xE000 ≤ n && n ≤ 0xF8FF)

/-- One character of a string inside a list or object. -/
def itemChar (c : Char) : List Char :=
  if c == '"' then ['\\', '"']
  else if c == '\\' then ['\\', '\\']
  else if c == '\n' then ['\\', 'n']
  else if c == '\r' then ['\\', 'r']
  else if c == '\t' then ['\\', 't']
  else if c == '\x00' then ['\\', '0']
  else if isHiddenChar c then ['\\', 'u', '{'] ++ Nat.toDigits 16 c.toNat ++ ['}']
  else [c]

/-- A string inside a list or object. -/
def itemString (s : String) : List Char :=
  '"' :: s.toList.flatMap itemChar ++ ['"']

/-- The word for a truth value. -/
def truthWord (b : Bool) : List Char :=
  if b then ['T', 'r', 'u', 'e'] else ['F', 'a', 'l', 's', 'e']

/-- The word for null. -/
def noneWord : List Char := ['N', 'o', 'n', 'e']

mutual
/-- A value inside a list or object. -/
def itemChars : Json → List Char
  | .null => noneWord
  | .bool b => truthWord b
  | .number (.int n) => (toString n).toList
  | .number (.real x) => (itemStyle.write x).toList
  | .string s => itemString s
  | .array items => '[' :: listChars items ++ [']']
  | .object members => '{' :: memberChars members ++ ['}']

/-- The items of a list, separated by commas. -/
def listChars : List Json → List Char
  | [] => []
  | [item] => itemChars item
  | item :: rest => itemChars item ++ ',' :: ' ' :: listChars rest

/-- The members of an object, separated by commas. -/
def memberChars : List (String × Json) → List Char
  | [] => []
  | [(key, value)] => itemString key ++ ':' :: ' ' :: itemChars value
  | (key, value) :: rest =>
      itemString key ++ ':' :: ' ' :: itemChars value ++ ',' :: ' ' :: memberChars rest
end

namespace Value

/-- **The text of a value** where it is printed. -/
def text : Value → List Char
  | .undefined => []
  | .known (.string s) => s.toList
  | .known (.number (.real x)) => (plainStyle.write x).toList
  | .known j => itemChars j

/-- Whether a value counts as true. -/
def isTruthy : Value → Bool
  | .undefined => false
  | .known .null => false
  | .known (.bool b) => b
  | .known (.number n) => !n.isZero
  | .known (.string s) => !s.isEmpty
  | .known (.array items) => !items.isEmpty
  | .known (.object members) => !members.isEmpty

/-- The JSON value; undefined as null. -/
def toJson : Value → Json
  | .undefined => .null
  | .known j => j

/-- An optional JSON value. -/
def ofOption : Option Json → Value
  | none => .undefined
  | some j => .known j

end Value

/-- The place of a kind in the order of kinds. -/
def kindRank : Json → Nat
  | .null => 1
  | .bool _ => 2
  | .number _ => 3
  | .string _ => 4
  | .array _ => 5
  | .object _ => 6

/-- A truth value or number as a number. -/
def numeric? : Json → Option Number
  | .bool b => some (.int (if b then 1 else 0))
  | .number n => some n
  | _ => none

/-- The order of numbers. -/
def compareNumbers : Number → Number → Ordering
  | .int a, .int b => compare a b
  | .real x, .real y => x.compareTo y
  | .int a, .real y => compareToReal a y
  | .real x, .int b => (compareToReal b x).swap
where
  /-- an integer compared with a double, exactly -/
  compareToReal (n : Int) (x : Binary64) : Ordering :=
    let (num, den) := x.magnitude
    let right : Int := if x.negative then -(num : Int) else (num : Int)
    compare (n * (den : Int)) right

mutual
/-- Whether two JSON values are equal in the template language. -/
def sameJson : Json → Json → Bool
  | .null, .null => true
  | .string a, .string b => a == b
  | .array xs, .array ys => sameItems xs ys
  | .object xs, .object ys => sameMembers xs ys
  | a, b =>
      match numeric? a, numeric? b with
      | some m, some n => compareNumbers m n == .eq
      | _, _ => false

/-- Whether two lists are equal item by item. -/
def sameItems : List Json → List Json → Bool
  | [], [] => true
  | x :: xs, y :: ys => sameJson x y && sameItems xs ys
  | _, _ => false

/-- Whether two objects are equal member by member. -/
def sameMembers : List (String × Json) → List (String × Json) → Bool
  | [], [] => true
  | (k, x) :: xs, (l, y) :: ys => k == l && sameJson x y && sameMembers xs ys
  | _, _ => false
end

mutual
/-- The order of JSON values in the template language. -/
def orderJson : Json → Json → Ordering
  | .string a, .string b => compare a b
  | .array xs, .array ys => orderItems xs ys
  | .object xs, .object ys => orderMembers xs ys
  | a, b =>
      match numeric? a, numeric? b with
      | some m, some n => (compareNumbers m n).then (compare (kindRank a) (kindRank b))
      | _, _ => compare (kindRank a) (kindRank b)

/-- The order of lists, item by item. -/
def orderItems : List Json → List Json → Ordering
  | [], [] => .eq
  | [], _ :: _ => .lt
  | _ :: _, [] => .gt
  | x :: xs, y :: ys => (orderJson x y).then (orderItems xs ys)

/-- The order of objects, member by member. -/
def orderMembers : List (String × Json) → List (String × Json) → Ordering
  | [], [] => .eq
  | [], _ :: _ => .lt
  | _ :: _, [] => .gt
  | (k, x) :: xs, (l, y) :: ys =>
      ((compare k l).then (orderJson x y)).then (orderMembers xs ys)
end

namespace Value

/-- Equality of values. -/
def same : Value → Value → Bool
  | .undefined, .undefined => true
  | .known a, .known b => sameJson a b
  | _, _ => false

/-- The order of values; undefined comes before everything. -/
def order : Value → Value → Ordering
  | .undefined, .undefined => .eq
  | .undefined, .known _ => .lt
  | .known _, .undefined => .gt
  | .known a, .known b => orderJson a b

/-- **Comparison** of two values. -/
def compareBy (how : Comparison) (a b : Value) : Bool :=
  match how with
  | .equal => a.same b
  | .unequal => !a.same b
  | .less => a.order b == .lt
  | .lessOrEqual => a.order b != .gt
  | .greater => a.order b == .gt
  | .greaterOrEqual => a.order b != .lt

/-- **An attribute**; undefined has none to ask for. -/
def attribute? (key : String) : Value → Option Value
  | .undefined => none
  | .known (.object members) => some (.ofOption (Assoc.get? key members))
  | .known _ => some .undefined

/-- A whole number as an index. -/
def index? : Value → Option Int
  | .known (.bool b) => some (if b then 1 else 0)
  | .known (.number (.int n)) => some n
  | .known (.number (.real x)) => if x.isIntegral then some x.truncate else none
  | _ => none

/-- The item of a list under an index; a negative index counts from the
    end. -/
def itemAt {α : Type} (items : List α) (index : Option Int) : Option α :=
  index.bind fun i =>
    let i := if i < 0 then i + items.length else i
    if i < 0 then none else items[i.toNat]?

/-- **The item** of a target under an index; undefined has none to ask for. -/
def item? (target index : Value) : Option Value :=
  match target with
  | .undefined => none
  | .known (.array items) => some (.ofOption (itemAt items index.index?))
  | .known (.string s) =>
      some (.ofOption ((itemAt s.toList index.index?).map fun c => .string (String.ofList [c])))
  | .known (.object members) =>
      match index with
      | .known (.string key) => some (.ofOption (Assoc.get? key members))
      | _ => some .undefined
  | .known _ => some .undefined

/-- The number with the opposite sign. -/
def negated? : Value → Option Value
  | .known (.number (.int n)) => some (.known (.number (.int (-n))))
  | .known (.number (.real x)) => some (.known (.number (.real x.neg)))
  | _ => none

/-- **The items of a loop**: those of a list, the keys of an object, the
    characters of a string; null and undefined have none.  Other values
    cannot be looped over. -/
def loopItems? : Value → Option (List Json)
  | .undefined => some []
  | .known .null => some []
  | .known (.array items) => some items
  | .known (.object members) => some (members.map fun (key, _) => .string key)
  | .known (.string s) => some (s.toList.map fun c => .string (String.ofList [c]))
  | .known _ => none

end Value

end PageLoom.Logic
