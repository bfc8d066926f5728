import PageLoom.Document.PlainScalar

/-!
# Document trees — what JSON and YAML texts read to

    Entities are decoded from a tree that both formats share.  Quoted and
    JSON scalars know their kind; an unquoted YAML scalar keeps its spelling,
    because its meaning depends on who reads it: `5` is a name to a reader
    of text and a number to a reader of numbers.  The views below are the
    readers of single values; `Record` is the view of a node as the fields
    of a structure.
-/

namespace PageLoom

/-- A document tree.  The entries of a mapping stand as written. -/
inductive Node
  | null
  | bool (b : Bool)
  | number (n : Number)
  | string (s : String)
  /-- an unquoted scalar, not yet interpreted -/
  | plain (spelling : String)
  /-- an array, which may also stand for the fields of a structure -/
  | array (items : List Node)
  /-- a list, which may not -/
  | list (items : List Node)
  | map (entries : List (String × Node))
  deriving Repr

instance : Inhabited Node := ⟨.null⟩

namespace Node

mutual
/-- The tree of a JSON value. -/
def ofJson : Json → Node
  | .null => .null
  | .bool b => .bool b
  | .number n => .number n
  | .string s => .string s
  | .array items => .array (ofItems items)
  | .object members => .map (ofMembers members)

/-- The trees of array items. -/
def ofItems : List Json → List Node
  | [] => []
  | item :: rest => ofJson item :: ofItems rest

/-- The entries of object members. -/
def ofMembers : List (String × Json) → List (String × Node)
  | [] => []
  | (key, value) :: rest => (key, ofJson value) :: ofMembers rest
end

mutual
/-- **Any value**: the JSON value of a tree.  Of several entries with one key
    the last counts. -/
def json? : Node → Option Json
  | .null => some .null
  | .bool b => some (.bool b)
  | .number n => some (.number n)
  | .string s => some (.string s)
  | .plain spelling => PlainScalar.resolve spelling
  | .array items | .list items => (jsonItems? items).map .array
  | .map entries => (jsonMembers? entries).map Json.ofMembers

/-- The JSON values of list items. -/
def jsonItems? : List Node → Option (List Json)
  | [] => some []
  | item :: rest => do return (← json? item) :: (← jsonItems? rest)

/-- The JSON members of mapping entries. -/
def jsonMembers? : List (String × Node) → Option (List (String × Json))
  | [] => some []
  | (key, value) :: rest => do return (key, ← json? value) :: (← jsonMembers? rest)
end

/-- A text.  Any unquoted scalar is a text to a reader of texts. -/
def text? : Node → Option String
  | .string s => some s
  | .plain spelling => some spelling
  | _ => none

/-- A boolean. -/
def bool? : Node → Option Bool
  | .bool b => some b
  | .plain spelling => PlainScalar.bool? spelling
  | _ => none

/-- A natural number of 64 bits. -/
def natural? : Node → Option Nat
  | .number n => n.natural?
  | .plain spelling => PlainScalar.natural? spelling
  | _ => none

/-- A signed integer of 64 bits. -/
def integer? : Node → Option Int
  | .number n => n.integer?
  | .plain spelling => PlainScalar.integer? spelling
  | _ => none

/-- Whether a node stands for an absent value. -/
def isAbsent : Node → Bool
  | .null => true
  | .plain spelling => spelling.isEmpty || PlainScalar.isNullWord spelling
  | _ => false

/-- A value that may be absent. -/
def optional? {α : Type} (read : Node → Option α) (node : Node) : Option (Option α) :=
  if node.isAbsent then some none else (read node).map some

/-- A list whose items are read alike.  An empty unquoted scalar is an empty
    list. -/
def list? {α : Type} (read : Node → Option α) : Node → Option (List α)
  | .array items | .list items => items.mapM read
  | .plain spelling => if spelling.isEmpty then some [] else none
  | _ => none

/-- The entries of a mapping.  An empty unquoted scalar is an empty mapping. -/
def entries? : Node → Option (List (String × Node))
  | .map entries => some entries
  | .plain spelling => if spelling.isEmpty then some [] else none
  | _ => none

/-- A table: a mapping whose values are read alike, in order of keys. -/
def table? {α : Type} (read : Node → Option α) (node : Node) : Option (List (String × α)) := do
  let entries ← node.entries?
  let pairs ← entries.mapM fun (key, value) => (read value).map (key, ·)
  return Assoc.ofList pairs

end Node

/-- The fields of a structure that a node gives, by name. -/
structure Record where
  fields : List (String × Node)

namespace Record

/-- The entries with the given names, each name at most once. -/
def select (names : List String) (entries : List (String × Node)) : Option Record :=
  let known := entries.filter fun (key, _) => names.contains key
  if (known.map (·.1)).Nodup then some ⟨known⟩ else none

/-- **Records**: the fields of a structure with the given names in order.  A
    mapping gives them by name, other names being ignored; an array gives them
    by position and may be shorter than the names, but not longer. -/
def ofNode? (names : List String) (node : Node) : Option Record :=
  match node with
  | .array items => if items.length ≤ names.length then some ⟨names.zip items⟩ else none
  | _ => node.entries?.bind (select names)

/-- A field, or its default when the record does not give it. -/
def get {α : Type} (record : Record) (name : String) (read : Node → Option α) (default : α) :
    Option α :=
  match record.fields.lookup name with
  | some node => read node
  | none => some default

end Record

end PageLoom
