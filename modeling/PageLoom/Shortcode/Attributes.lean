import PageLoom.Assoc
import PageLoom.Text.Blank
import PageLoom.Text.Case
import PageLoom.Text.Search

/-!
# Attributes — what stands between a shortcode's tag and its end

    Attributes are `key="value"`, `key='value'`, `key=value`, or values
    alone, which count from zero and are kept under their number.  What is
    none of these is a value up to the next white space.
-/

namespace PageLoom.Shortcode

open Text

/-- Attributes in order of keys. -/
abbrev Attributes := List (String × String)

/-- Characters of tags and keys. -/
def isNameChar (c : Char) : Bool :=
  c.isAlphanum || c == '_' || c == '-'

/-- One attribute as read. -/
inductive Attribute
  | named (key value : List Char)
  | positional (value : List Char)
  deriving DecidableEq, Repr

/-- A value in quotes at the start of a text, and what follows it. -/
def quoted? : List Char → Option (List Char × List Char)
  | c :: cs => if c == '"' || c == '\'' then cutAtChar c cs else none
  | [] => none

/-- Whether a character belongs to a value without quotes. -/
def isBareChar (c : Char) : Bool :=
  !isBlank c && c != '\'' && c != '"'

/-- A value without quotes at the start of a text, and what follows it. -/
def bare? (cs : List Char) : Option (List Char × List Char) :=
  let value := cs.takeWhile isBareChar
  if value.isEmpty then none else some (value, cs.dropWhile isBareChar)

/-- An attribute with a key at the start of a text, and what follows it. -/
def named? (cs : List Char) : Option (Attribute × List Char) :=
  let key := cs.takeWhile isNameChar
  if key.isEmpty then none
  else
    match trimStart (cs.dropWhile isNameChar) with
    | '=' :: rest =>
        let rest := trimStart rest
        ((quoted? rest).or (bare? rest)).map fun (value, rest) => (.named key value, rest)
    | _ => none

/-- The attribute at the start of a text that starts with no white space, and
    what follows it. -/
def attributeAt (cs : List Char) : Attribute × List Char :=
  match named? cs with
  | some found => found
  | none =>
      match quoted? cs with
      | some (value, rest) => (.positional value, rest)
      | none =>
          (.positional (cs.takeWhile (!isBlank ·)), cs.dropWhile (!isBlank ·))

/-- The attributes of a text, in order.  `fuel` is at least its length. -/
def attributesFrom : Nat → List Char → List Attribute
  | 0, _ => []
  | fuel + 1, cs =>
      match trimStart cs with
      | [] => []
      | c :: cs =>
          let (first, rest) := attributeAt (c :: cs)
          first :: attributesFrom fuel rest

/-- The table of attributes, the next value alone being kept under
    `position`. -/
def tableFrom (position : Nat) (table : Attributes) : List Attribute → Attributes
  | [] => table
  | .named key value :: rest =>
      tableFrom position
        (Assoc.insert (String.ofList (lowerAscii key)) (String.ofList value) table) rest
  | .positional value :: rest =>
      tableFrom (position + 1) (Assoc.insert (toString position) (String.ofList value) table) rest

/-- **Reading attributes.** -/
def attributesOf (text : List Char) : Attributes :=
  tableFrom 0 [] (attributesFrom text.length text)

end PageLoom.Shortcode
