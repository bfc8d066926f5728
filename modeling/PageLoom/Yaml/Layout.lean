import PageLoom.Yaml.Scalar

/-!
# Layout — a YAML text as a row of tokens

    Indentation and punctuation become tokens that open and close blocks.
    A key is recognised only when its colon comes, so the place where a key
    could have started is remembered for every level of flow collections,
    and the tokens that open the mapping are put in there.  Keys stay on one
    line and are no longer than 1024 characters.

    Sites and requests are written with block and flow collections, scalars of
    every style and comments.  The rest of the language has no tokens here:
    directives (`%`), anchors (`&`), aliases (`*`), tags (`!`) and keys with a
    question mark.  A text that uses one of them counts as malformed.
-/

namespace PageLoom.Yaml

/-- A token. -/
inductive Token
  | documentStart
  | documentEnd
  | blockSequence
  | blockMapping
  | blockEnd
  | flowSequence
  | flowSequenceEnd
  | flowMapping
  | flowMappingEnd
  | blockEntry
  | flowEntry
  | key
  | value
  | plain (text : String)
  | quoted (text : String)
  deriving DecidableEq, Repr

/-- A place where a key could have started. -/
structure KeyPlace where
  /-- whether a colon must follow on the line -/
  isRequired : Bool
  /-- how many tokens stand before it -/
  position : Nat
  line : Nat
  column : Nat
  index : Nat

/-- The reading of a text: the cursor, the open blocks by their columns, the
    possible keys by flow level, and the tokens so far, last first. -/
structure Reading where
  cursor : Cursor
  /-- the column of the innermost block, -1 outside -/
  indent : Int := -1
  /-- the columns of the blocks around it, innermost first -/
  outer : List Int := []
  /-- the possible keys of the flow collections that are open, innermost
      first -/
  flow : List (Option KeyPlace) := []
  /-- the possible key outside or in the innermost flow collection -/
  place : Option KeyPlace := none
  /-- whether a key may start here -/
  allowsKey : Bool := true
  tokens : List Token := []

namespace Reading

/-- Whether the cursor is in a flow collection. -/
def inFlow (r : Reading) : Bool :=
  !r.flow.isEmpty

/-- The reading with a token more. -/
def put (r : Reading) (t : Token) : Reading :=
  { r with tokens := t :: r.tokens }

/-- The reading with a token put in after the first `position` tokens. -/
def putAt (r : Reading) (position : Nat) (t : Token) : Reading :=
  let n := r.tokens.length - position
  { r with tokens := r.tokens.take n ++ t :: r.tokens.drop n }

/-- The reading without the possible key of the innermost level; none if the
    key had to come. -/
def dropKey (r : Reading) : Option Reading :=
  if r.place.any (·.isRequired) then none else some { r with place := none }

/-- Whether a possible key is out of reach. -/
def isStale (cur : Cursor) (place : KeyPlace) : Bool :=
  place.line < cur.line || place.index + 1024 < cur.index

/-- The reading without possible keys out of reach; none if one of them had to
    come. -/
def dropStale (r : Reading) : Option Reading :=
  let stale (p : Option KeyPlace) := p.any (isStale r.cursor)
  if (r.place :: r.flow).any fun p => stale p && p.any (·.isRequired) then none
  else
    let keep (p : Option KeyPlace) := if stale p then none else p
    some { r with place := keep r.place, flow := r.flow.map keep }

/-- The reading with the cursor noted as the start of a possible key. -/
def noteKey (r : Reading) : Option Reading :=
  if r.allowsKey then do
    let cur := r.cursor
    let isRequired := !r.inFlow && r.indent == (cur.column : Int)
    let r ← r.dropKey
    return { r with place := some ⟨isRequired, r.tokens.length, cur.line, cur.column, cur.index⟩ }
  else some r

/-- Opens a block at a column, if it is indented more than the innermost one,
    its token put in after `position` tokens. -/
def openBlock (r : Reading) (column position : Nat) (t : Token) : Reading :=
  if r.inFlow || (column : Int) ≤ r.indent then r
  else
    { r.putAt position t with indent := column, outer := r.indent :: r.outer }

/-- Closes the blocks that are indented more than a column. -/
def closeBlocksFrom (column : Int) (tokens : List Token) (indent : Int) :
    List Int → List Token × Int × List Int
  | [] => (tokens, indent, [])
  | next :: outer =>
      if column < indent then closeBlocksFrom column (.blockEnd :: tokens) next outer
      else (tokens, indent, next :: outer)

/-- The reading with the blocks closed that are indented more than a column. -/
def closeBlocks (r : Reading) (column : Int) : Reading :=
  if r.inFlow then r
  else
    let (tokens, indent, outer) := closeBlocksFrom column r.tokens r.indent r.outer
    { r with tokens, indent, outer }

/-- The reading after white space, comments and line breaks.  Tabs count as
    white space where no indentation is due. -/
def skipGap : Nat → Reading → Reading
  | 0, r => r
  | fuel + 1, r =>
      let allowsTab := r.inFlow || !r.allowsKey
      let cur := r.cursor.skipWhile fun c => c == ' ' || (allowsTab && c == '\t')
      let cur := if cur.peek == some '#' then cur.skipWhile (!isBreak ·) else cur
      if cur.peek.any isBreak then
        skipGap fuel
          { r with cursor := cur.takeBreak.2, allowsKey := r.allowsKey || !r.inFlow }
      else { r with cursor := cur }

/-- A mark of `n` characters that ends any possible key. -/
def mark (r : Reading) (n : Nat) (allowsKey : Bool) (t : Token) : Option Reading := do
  let r ← r.dropKey
  return { r.put t with cursor := r.cursor.skip n, allowsKey }

/-- The mark of a document. -/
def documentMark (r : Reading) (t : Token) : Option Reading :=
  (r.closeBlocks (-1)).mark 3 false t

/-- The start of a flow collection. -/
def openFlow (r : Reading) (t : Token) : Option Reading := do
  let r ← r.noteKey
  return { r.put t with
    cursor := r.cursor.skip 1, flow := r.place :: r.flow, place := none, allowsKey := true }

/-- The end of a flow collection. -/
def closeFlow (r : Reading) (t : Token) : Option Reading := do
  let r ← r.dropKey
  let r := { r.put t with cursor := r.cursor.skip 1, allowsKey := false }
  match r.flow with
  | [] => return r
  | place :: flow => return { r with place, flow }

/-- The mark of an entry of a block sequence. -/
def blockEntry (r : Reading) : Option Reading :=
  if r.inFlow then r.mark 1 true .blockEntry
  else if !r.allowsKey then none
  else (r.openBlock r.cursor.column r.tokens.length .blockSequence).mark 1 true .blockEntry

/-- The colon before a value. -/
def colon (r : Reading) : Option Reading :=
  match r.place with
  | some place =>
      let r := { r.putAt place.position .key with place := none, allowsKey := false }
      let r := r.openBlock place.column place.position .blockMapping
      some { r.put .value with cursor := r.cursor.skip 1 }
  | none =>
      if r.inFlow then
        some { r.put .value with cursor := r.cursor.skip 1, allowsKey := false }
      else if !r.allowsKey then none
      else
        let r := r.openBlock r.cursor.column r.tokens.length .blockMapping
        some { r.put .value with cursor := r.cursor.skip 1, allowsKey := true }

/-- A block scalar. -/
def blockScalar (r : Reading) (folds : Bool) : Option Reading := do
  let r ← r.dropKey
  let (text, cursor) ← block? folds r.indent r.cursor
  return { r.put (.quoted (String.ofList text)) with cursor, allowsKey := true }

/-- A quoted scalar. -/
def quotedScalar (r : Reading) (quote : Char) : Option Reading := do
  let r ← r.noteKey
  let (text, cursor) ← quoted? quote r.cursor
  return { r.put (.quoted (String.ofList text)) with cursor, allowsKey := false }

/-- A plain scalar. -/
def plainScalar (r : Reading) : Option Reading := do
  let r ← r.noteKey
  let (text, broken, cursor) ← plain? r.inFlow (r.indent + 1) r.cursor
  return { r.put (.plain (String.ofList text)) with cursor, allowsKey := broken }

/-- Marks that no plain scalar starts with. -/
def reservedMarks : List Char :=
  ['-', '?', ':', ',', '[', ']', '{', '}', '#', '&', '*', '!', '|', '>', '\'', '"', '%', '@',
    '\x60']

/-- Whether a plain scalar starts with a character before the text `rest`. -/
def startsPlain (r : Reading) (c : Char) (rest : List Char) : Bool :=
  !(reservedMarks.contains c || isBlank c || isBreak c)
    || (c == '-' && !(rest.head?.any isBlank))
    || (!r.inFlow && (c == '?' || c == ':') && !startsGap rest)

/-- **One token** at a cursor that is not at the end of the text. -/
def token (r : Reading) (c : Char) (rest : List Char) : Option Reading :=
  if r.cursor.atMark '-' then r.documentMark .documentStart
  else if r.cursor.atMark '.' then r.documentMark .documentEnd
  else if c == '%' && r.cursor.column == 0 then none
  else if c == '[' then r.openFlow .flowSequence
  else if c == '{' then r.openFlow .flowMapping
  else if c == ']' then r.closeFlow .flowSequenceEnd
  else if c == '}' then r.closeFlow .flowMappingEnd
  else if c == ',' then r.mark 1 true .flowEntry
  else if c == '-' && startsGap rest then r.blockEntry
  else if c == '?' && (r.inFlow || startsGap rest) then none
  else if c == ':' && (r.inFlow || startsGap rest) then r.colon
  else if (c == '|' || c == '>') && !r.inFlow then r.blockScalar (c == '>')
  else if c == '\'' || c == '"' then r.quotedScalar c
  else if r.startsPlain c rest then r.plainScalar
  else none

/-- The end of the text: all blocks are closed. -/
def finish (r : Reading) : Option (List Token) := do
  let r ← (r.closeBlocks (-1)).dropKey
  return r.tokens.reverse

/-- The tokens of the rest of a text.  `fuel` is more than its length. -/
def run : Nat → Reading → Option (List Token)
  | 0, _ => none
  | fuel + 1, r => do
      let r ← (r.skipGap (r.cursor.rest.length + 1)).dropStale
      let r := r.closeBlocks r.cursor.column
      match r.cursor.rest with
      | [] => r.finish
      | c :: rest => run fuel (← r.token c rest)

end Reading

/-- **The tokens of a text**; none when it is malformed. -/
def tokensOf (text : String) : Option (List Token) :=
  let cursor := Cursor.ofText text
  if cursor.rest.all isAllowed then Reading.run (cursor.rest.length + 2) { cursor } else none

end PageLoom.Yaml
