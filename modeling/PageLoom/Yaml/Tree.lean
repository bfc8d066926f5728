import PageLoom.Document.Node
import PageLoom.Text.Blank
import PageLoom.Yaml.Layout

/-!
# Trees of YAML texts

    The tokens of a text are read into one document tree.  What stands
    where a value is missing is an empty plain scalar.

    Left out: keys that are collections, and texts of more than one document.
    Either counts as malformed, as do the marks that `Yaml.Layout` leaves out.
    Without anchors and aliases a document is a tree.
-/

namespace PageLoom.Yaml

/-- The node of a missing value. -/
def emptyNode : Node := .plain ""

/-- Whether tokens go on with one of the given ones. -/
def startsWith (ts : List Token) (marks : List Token) : Bool :=
  ts.head?.any marks.contains

/-- The text of a key, if it is a scalar. -/
def keyText? (node : Node) : Option String :=
  node.text?

mutual
/-- A node.  `inBlock` allows block collections, `isBare` also sequences that
    are not indented more than their key. -/
def nodeFrom (inBlock isBare : Bool) : Nat → List Token → Option (Node × List Token)
  | 0, _ => none
  | fuel + 1, ts =>
      match ts with
      | .plain text :: ts => some (.plain text, ts)
      | .quoted text :: ts => some (.string text, ts)
      | .flowSequence :: ts =>
          (flowItems fuel true ts).map fun (items, ts) => (.list items, ts)
      | .flowMapping :: ts =>
          (flowEntries fuel true ts).map fun (entries, ts) => (.map entries, ts)
      | .blockSequence :: ts =>
          if inBlock then (blockItems fuel ts).map fun (items, ts) => (.list items, ts) else none
      | .blockMapping :: ts =>
          if inBlock then (blockEntries fuel ts).map fun (entries, ts) => (.map entries, ts)
          else none
      | .blockEntry :: _ =>
          if isBare then (bareItems fuel ts).map fun (items, ts) => (.list items, ts) else none
      | _ => none

/-- A node, or an empty one before one of the given tokens. -/
def nodeUnless (ends : List Token) (inBlock isBare : Bool) :
    Nat → List Token → Option (Node × List Token)
  | 0, _ => none
  | fuel + 1, ts =>
      if startsWith ts ends then some (emptyNode, ts) else nodeFrom inBlock isBare fuel ts

/-- The items of a block sequence, up to the end of its block. -/
def blockItems : Nat → List Token → Option (List Node × List Token)
  | 0, _ => none
  | _ + 1, .blockEnd :: ts => some ([], ts)
  | fuel + 1, .blockEntry :: ts => do
      let (item, ts) ← nodeUnless [.blockEntry, .blockEnd] true false fuel ts
      let (items, ts) ← blockItems fuel ts
      return (item :: items, ts)
  | _ + 1, _ => none

/-- The items of a sequence that is not indented more than its key. -/
def bareItems : Nat → List Token → Option (List Node × List Token)
  | 0, _ => none
  | fuel + 1, .blockEntry :: ts => do
      let (item, ts) ← nodeUnless [.blockEntry, .key, .value, .blockEnd] true false fuel ts
      let (items, ts) ← bareItems fuel ts
      return (item :: items, ts)
  | _ + 1, ts => some ([], ts)

/-- The entries of a block mapping, up to the end of its block. -/
def blockEntries : Nat → List Token → Option (List (String × Node) × List Token)
  | 0, _ => none
  | _ + 1, .blockEnd :: ts => some ([], ts)
  | fuel + 1, .key :: ts => do
      let (keyNode, ts) ← nodeUnless [.key, .value, .blockEnd] true true fuel ts
      let key ← keyText? keyNode
      let (value, ts) ←
        match ts with
        | .value :: ts => nodeUnless [.key, .value, .blockEnd] true true fuel ts
        | _ => some (emptyNode, ts)
      let (entries, ts) ← blockEntries fuel ts
      return ((key, value) :: entries, ts)
  | _ + 1, _ => none

/-- The items of a flow sequence, up to its closing bracket. -/
def flowItems : Nat → Bool → List Token → Option (List Node × List Token)
  | 0, _, _ => none
  | _ + 1, _, .flowSequenceEnd :: ts => some ([], ts)
  | fuel + 1, true, ts => flowItem fuel ts
  | _ + 1, false, .flowEntry :: .flowSequenceEnd :: ts => some ([], ts)
  | fuel + 1, false, .flowEntry :: ts => flowItem fuel ts
  | _ + 1, false, _ => none

/-- An item of a flow sequence, a node or a single pair, and the items after
    it. -/
def flowItem : Nat → List Token → Option (List Node × List Token)
  | 0, _ => none
  | fuel + 1, .key :: ts => do
      let (keyNode, ts) ← nodeUnless [.value, .flowEntry, .flowSequenceEnd] false false fuel ts
      let key ← keyText? keyNode
      let (value, ts) ←
        match ts with
        | .value :: ts => nodeUnless [.flowEntry, .flowSequenceEnd] false false fuel ts
        | _ => some (emptyNode, ts)
      let (items, ts) ← flowItems fuel false ts
      return (.map [(key, value)] :: items, ts)
  | fuel + 1, ts => do
      let (item, ts) ← nodeFrom false false fuel ts
      let (items, ts) ← flowItems fuel false ts
      return (item :: items, ts)

/-- The entries of a flow mapping, up to its closing brace. -/
def flowEntries : Nat → Bool → List Token → Option (List (String × Node) × List Token)
  | 0, _, _ => none
  | _ + 1, _, .flowMappingEnd :: ts => some ([], ts)
  | fuel + 1, true, ts => flowPair fuel ts
  | _ + 1, false, .flowEntry :: .flowMappingEnd :: ts => some ([], ts)
  | fuel + 1, false, .flowEntry :: ts => flowPair fuel ts
  | _ + 1, false, _ => none

/-- An entry of a flow mapping and the entries after it. -/
def flowPair : Nat → List Token → Option (List (String × Node) × List Token)
  | 0, _ => none
  | fuel + 1, .key :: ts => do
      let (keyNode, ts) ← nodeUnless [.value, .flowEntry, .flowMappingEnd] false false fuel ts
      let key ← keyText? keyNode
      let (value, ts) ←
        match ts with
        | .value :: ts => nodeUnless [.flowEntry, .flowMappingEnd] false false fuel ts
        | _ => some (emptyNode, ts)
      let (entries, ts) ← flowEntries fuel false ts
      return ((key, value) :: entries, ts)
  | fuel + 1, ts => do
      let (keyNode, ts) ← nodeFrom false false fuel ts
      let key ← keyText? keyNode
      let (entries, ts) ← flowEntries fuel false ts
      return ((key, emptyNode) :: entries, ts)
end

/-- The tokens after the ends of a document. -/
def afterDocument (ts : List Token) : List Token :=
  ts.dropWhile (· == .documentEnd)

/-- The node of a document that opens with a mark. -/
def markedDocument (ts : List Token) : Option (Node × List Token) :=
  if ts.isEmpty || startsWith ts [.documentStart, .documentEnd] then some (emptyNode, ts)
  else nodeFrom true false (4 * ts.length + 4) ts

/-- The tree of tokens, which hold at most one document. -/
def treeOf (ts : List Token) : Option Node := do
  let (node, rest) ←
    match ts with
    | [] => some (emptyNode, [])
    | .documentStart :: ts => markedDocument ts
    | ts => nodeFrom true false (4 * ts.length + 4) ts
  if (afterDocument rest).isEmpty then some node else none

/-- **Reading YAML**: the tree of a text; none when it is malformed. -/
def read (text : String) : Option Node :=
  (tokensOf text).bind treeOf

/-- A value from a YAML text, a blank text standing for the default. -/
def decode {α : Type} (default : α) (ofNode? : Node → Option α) (text : String) : Option α :=
  if Text.isBlankText text then some default else (read text).bind ofNode?

end PageLoom.Yaml
