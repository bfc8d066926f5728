import PageLoom.Condition.RuleSet
import PageLoom.Text.Case
import PageLoom.Text.Digits

/-!
# Columns — the lenient fields of stored records

    Storage keeps lists and conditions either as JSON values or as strings
    that hold JSON text, and identifiers either as numbers or as strings of
    digits.  The readers below take every such form; what they do not
    understand becomes the empty value, so that one bad field never loses
    the record around it.
-/

namespace PageLoom

open Text

/-- The greatest identifier. -/
def greatestId : Nat := greatestWord

/-- An entry of a content list: a block by its identifier, or literal markup
    with dynamic tokens. -/
inductive ContentItem
  | block (id : Nat)
  | markup (text : String)
  deriving DecidableEq, Repr

namespace ContentItem

/-- The identifier that a text spells in digits, if it is in range. -/
def id? (text : String) : Option Nat :=
  (decimal? text.toList).filter (· ≤ greatestId)

/-- **The item of a text**: a block if the text is an identifier in digits,
    otherwise markup. -/
def ofText (text : String) : ContentItem :=
  match id? text with
  | some id => .block id
  | none => .markup text

/-- The item of a number: a block if the number is natural.  A number beyond
    the identifiers stands for the greatest one. -/
def ofNumber? : Number → Option ContentItem
  | .int n => if 0 ≤ n then some (.block (min n.toNat greatestId)) else none
  | .real x =>
      if x.isIntegral && (x.isZero || !x.negative) then
        some (.block (min x.truncate.toNat greatestId))
      else none

/-- The item of a JSON value; other values than numbers and strings have
    none. -/
def ofJson? : Json → Option ContentItem
  | .number n => ofNumber? n
  | .string s => some (ofText s)
  | _ => none

/-- The identifier of a block item. -/
def blockId? : ContentItem → Option Nat
  | .block id => some id
  | .markup _ => none

/-- The stored form of an item. -/
def toJson : ContentItem → Json
  | .block id => .ofNat id
  | .markup text => .string text

/-- An item from a document. -/
def ofNode? (node : Node) : Option ContentItem :=
  node.json?.bind ofJson?

end ContentItem

namespace Column

/-- The value of a column without one layer of string encoding: a blank string
    and a string that is not JSON stand for null. -/
def decoded : Json → Json
  | .string text => if isBlankText text then .null else (Json.read text).getD .null
  | value => value

/-- The items of a list column; a value that is no list has none. -/
def items (value : Json) : List Json :=
  match decoded value with
  | .array items => items
  | _ => []

/-- **Content lists**: the entries that are items, in order. -/
def contentItems (value : Json) : List ContentItem :=
  (items value).filterMap ContentItem.ofJson?

/-- The identifier of a value that is one. -/
def id? (value : Json) : Option Nat :=
  (ContentItem.ofJson? value).bind ContentItem.blockId?

/-- **Identifier lists**: the entries that are identifiers, in order. -/
def ids (value : Json) : List Nat :=
  (items value).filterMap id?

/-- **Optional identifiers**: zero stands for none. -/
def optionalId (value : Json) : Option Nat :=
  (id? value).filter (· != 0)

/-- The texts that stand for false. -/
def falseWords : List String :=
  ["", "0", "false", "no", "off"]

/-- **Flags**: false, zero and the false words are false; all else, null
    included, is true. -/
def flag : Json → Bool
  | .bool b => b
  | .number n => !n.isZero
  | .string s => !falseWords.contains (String.ofList (lowerAscii (trim s.toList)))
  | _ => true

/-- A lenient field of a record, read as any JSON value first. -/
def lenient {α : Type} (read : Json → α) (node : Node) : Option α :=
  node.json?.map read

end Column

end PageLoom
