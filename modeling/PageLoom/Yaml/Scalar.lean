import PageLoom.Text.Digits
import PageLoom.Yaml.Cursor

/-!
# Scalars — single values of a YAML text

    Plain and quoted scalars may go on over lines: a gap with one line break
    reads as a space, further breaks as themselves.  Block scalars keep or
    fold their lines and end by indentation; what happens to their last
    line breaks is chosen in their heading.  Every reader gives the text and
    the cursor after it, or nothing when the text is malformed.
-/

namespace PageLoom.Yaml

/-- White space between two words of a scalar. -/
structure Gap where
  /-- white space on one line -/
  blanks : List Char := []
  /-- the first line break -/
  first : List Char := []
  /-- the line breaks after it -/
  more : List Char := []
  /-- whether there is a line break -/
  isBroken : Bool := false

/-- What a gap reads as. -/
def Gap.text (gap : Gap) : List Char :=
  if !gap.isBroken then gap.blanks
  else if gap.first == ['\n'] then (if gap.more.isEmpty then [' '] else gap.more)
  else gap.first ++ gap.more

/-- The gap at the cursor, after what is read of it.  In a plain scalar a tab
    may not stand where indentation is due, below the column `limit`. -/
def gapFrom (limit : Int) : Nat → Gap → Cursor → Option (Gap × Cursor)
  | 0, gap, cur => some (gap, cur)
  | fuel + 1, gap, cur =>
      match cur.peek with
      | none => some (gap, cur)
      | some c =>
          if isBlank c then
            if gap.isBroken then
              if c == '\t' && (cur.column : Int) < limit then none
              else gapFrom limit fuel gap (cur.skip 1)
            else gapFrom limit fuel { gap with blanks := gap.blanks ++ [c] } (cur.skip 1)
          else if isBreak c then
            let (text, next) := cur.takeBreak
            if gap.isBroken then gapFrom limit fuel { gap with more := gap.more ++ text } next
            else gapFrom limit fuel { gap with first := text, isBroken := true } next
          else some (gap, cur)

/-! ## Plain scalars -/

/-- Characters that end a plain scalar in a flow collection. -/
def isFlowMark (c : Char) : Bool :=
  c == ',' || c == '[' || c == ']' || c == '{' || c == '}'

/-- The length of the word at the start of a text.  A colon before one of the
    marks of flow collections is an error inside them. -/
def plainWord (inFlow : Bool) : List Char → Option Nat
  | [] => some 0
  | c :: cs =>
      if isBlank c || isBreak c then some 0
      else if c == ':' && startsGap cs then some 0
      else if inFlow && c == ':' && (cs.head?.any fun d => isFlowMark d || d == '?') then none
      else if inFlow && isFlowMark c then some 0
      else (plainWord inFlow cs).map (· + 1)

/-- The words of a plain scalar after `text`, which is last character first.
    The answer also says whether the scalar ended on a new line. -/
def plainFrom (inFlow : Bool) (limit : Int) :
    Nat → List Char → Gap → Cursor → Option (List Char × Bool × Cursor)
  | 0, text, gap, cur => some (text, gap.isBroken, cur)
  | fuel + 1, text, gap, cur =>
      if cur.atDocumentMark || cur.peek == some '#' then some (text, gap.isBroken, cur)
      else do
        let n ← plainWord inFlow cur.rest
        let word := cur.rest.take n
        let text := if n = 0 then text else word.reverse ++ gap.text.reverse ++ text
        let gap := if n = 0 then gap else {}
        let cur := cur.skip n
        if !startsGap cur.rest || cur.rest.isEmpty then some (text, gap.isBroken, cur)
        else
          let (gap, cur) ← gapFrom limit (cur.rest.length + 1) gap cur
          if !inFlow && (cur.column : Int) < limit then some (text, gap.isBroken, cur)
          else plainFrom inFlow limit fuel text gap cur

/-- **A plain scalar**, the lines of which are indented to `limit` at least. -/
def plain? (inFlow : Bool) (limit : Int) (cur : Cursor) :
    Option (List Char × Bool × Cursor) :=
  (plainFrom inFlow limit (cur.rest.length + 1) [] {} cur).map
    fun (text, broken, cur) => (text.reverse, broken, cur)

/-! ## Quoted scalars -/

/-- The character that an escape with one letter stands for. -/
def escapedLetter? (c : Char) : Option Char :=
  [('0', '\x00'), ('a', '\x07'), ('b', '\x08'), ('t', '\t'), ('\t', '\t'), ('n', '\n'),
    ('v', '\x0b'), ('f', '\x0c'), ('r', '\r'), ('e', '\x1b'), (' ', ' '), ('"', '"'),
    ('/', '/'), ('\\', '\\'), ('N', '\u0085'), ('_', '\u00a0'), ('L', '\u2028'),
    ('P', '\u2029')].lookup c

/-- How many digits follow the letter of a numeric escape. -/
def escapeLength? (c : Char) : Option Nat :=
  [('x', 2), ('u', 4), ('U', 8)].lookup c

/-- The character of a numeric escape. -/
def escapedNumber? (n : Nat) (digits : List Char) : Option Char := do
  if digits.length < n then none
  else
    let value ← Text.hexadecimal? (digits.take n)
    if (0xD800 ≤ value && value ≤ 0xDFFF) || 0x10FFFF < value then none
    else return Char.ofNat value

/-- The character of the escape at the start of a text, the backslash read, and
    how many characters it takes. -/
def escape? : List Char → Option (Char × Nat)
  | [] => none
  | c :: cs =>
      match escapedLetter? c with
      | some x => some (x, 1)
      | none => do
          let n ← escapeLength? c
          let x ← escapedNumber? n cs
          return (x, n + 1)

/-- How a run of characters in quotes ends. -/
inductive RunEnd
  /-- at white space, a line break or the end of the text -/
  | gap
  /-- after the closing quote -/
  | quote
  /-- after a line break with a backslash before it -/
  | joined

/-- The characters up to the next white space or closing quote. -/
def quotedRun (quote : Char) : Nat → Cursor → Option (List Char × RunEnd × Cursor)
  | 0, _ => none
  | fuel + 1, cur =>
      match cur.rest with
      | [] => some ([], .gap, cur)
      | c :: cs =>
          let more (x : Char) (n : Nat) :=
            (quotedRun quote fuel (cur.skip n)).map fun (text, how, cur) => (x :: text, how, cur)
          if isBlank c || isBreak c then some ([], .gap, cur)
          else if c == quote then
            if quote == '\'' && cs.head? == some '\'' then more '\'' 2
            else some ([], .quote, cur.skip 1)
          else if quote == '"' && c == '\\' then
            if cs.head?.any isBreak then some ([], .joined, (cur.skip 1).takeBreak.2)
            else (escape? cs).bind fun (x, n) => more x (n + 1)
          else more c 1

/-- The text of a quoted scalar, its opening quote read. -/
def quotedFrom (quote : Char) : Nat → Cursor → Option (List Char × Cursor)
  | 0, _ => none
  | fuel + 1, cur =>
      if cur.atDocumentMark || cur.rest.isEmpty then none
      else do
        let (run, how, cur) ← quotedRun quote (cur.rest.length + 1) cur
        match how with
        | .quote => some (run, cur)
        | .gap =>
            let (gap, cur) ← gapFrom 0 (cur.rest.length + 1) {} cur
            let (text, cur) ← quotedFrom quote fuel cur
            return (run ++ gap.text ++ text, cur)
        | .joined =>
            let (gap, cur) ← gapFrom 0 (cur.rest.length + 1) { isBroken := true } cur
            let (text, cur) ← quotedFrom quote fuel cur
            return (run ++ gap.text ++ text, cur)

/-- **A quoted scalar** in the quotes at the cursor. -/
def quoted? (quote : Char) (cur : Cursor) : Option (List Char × Cursor) :=
  quotedFrom quote (cur.rest.length + 1) (cur.skip 1)

/-! ## Block scalars -/

/-- What happens to the last line breaks of a block scalar. -/
inductive Chomping
  | strip
  | clip
  | keep
  deriving DecidableEq

/-- The chomping that a sign asks for. -/
def chomping? (c : Char) : Option Chomping :=
  if c == '+' then some .keep else if c == '-' then some .strip else none

/-- The indentation that a digit asks for. -/
def increment? (c : Char) : Option Nat :=
  if c.isDigit && c != '0' then some (Text.digitValue c) else none

/-- The signs of a heading: chomping and indentation in either order, and the
    number of characters they take. -/
def blockSigns (cs : List Char) : Chomping × Option Nat × Nat :=
  let first := cs.head?
  let second := (cs.drop 1).head?
  match first.bind chomping?, first.bind increment? with
  | some chomping, _ =>
      match second.bind increment? with
      | some n => (chomping, some n, 2)
      | none => (chomping, none, 1)
  | none, some n =>
      match second.bind chomping? with
      | some chomping => (chomping, some n, 2)
      | none => (.clip, some n, 1)
  | none, none => (.clip, none, 0)

/-- The blank lines at the cursor, up to the column `indent` if it is known:
    their line breaks, the widest line among them, and the cursor after the
    white space of the next line. -/
def blockBreaks (indent : Option Nat) :
    Nat → List Char → Nat → Cursor → Option (List Char × Nat × Cursor)
  | 0, breaks, widest, cur => some (breaks, widest, cur)
  | fuel + 1, breaks, widest, cur =>
      let spaces := (cur.rest.takeWhile (· == ' ')).length
      let cur :=
        match indent with
        | some n => cur.skip (min spaces (n - cur.column))
        | none => cur.skip spaces
      let widest := max widest cur.column
      let isShort := indent.all (cur.column < ·)
      match cur.peek with
      | none => some (breaks, widest, cur)
      | some c =>
          if c == '\t' && isShort then none
          else if isBreak c then
            let (text, next) := cur.takeBreak
            blockBreaks indent fuel (breaks ++ text) widest next
          else some (breaks, widest, cur)

/-- A block scalar being read: its text last character first, the break after
    its last line, the blank lines after that, and whether the last line
    started with white space. -/
structure BlockText where
  text : List Char := []
  lastBreak : List Char := []
  blankLines : List Char := []
  wasBlank : Bool := false

/-- The block text with the breaks before a new line written out.  In a folded
    scalar the break between two lines that start with no white space reads
    as a space, or as nothing before blank lines. -/
def BlockText.join (b : BlockText) (folds startsBlank : Bool) : List Char :=
  let between :=
    if folds && b.lastBreak == ['\n'] && !b.wasBlank && !startsBlank then
      if b.blankLines.isEmpty then [' '] else []
    else b.lastBreak
  b.blankLines.reverse ++ between.reverse ++ b.text

/-- The lines of a block scalar at the column `indent`. -/
def blockLines (folds : Bool) (indent : Nat) :
    Nat → BlockText → Cursor → Option (BlockText × Cursor)
  | 0, b, cur => some (b, cur)
  | fuel + 1, b, cur =>
      if cur.column != indent || cur.rest.isEmpty then some (b, cur)
      else do
        let startsBlank := cur.peek.any isBlank
        let line := cur.rest.takeWhile (!isBreak ·)
        let text := line.reverse ++ b.join folds startsBlank
        let (lastBreak, cur) := (cur.skip line.length).takeBreak
        let (blankLines, _, cur) ← blockBreaks (some indent) (cur.rest.length + 1) [] 0 cur
        blockLines folds indent fuel ⟨text, lastBreak, blankLines, startsBlank⟩ cur

/-- The text of a block scalar after chomping. -/
def BlockText.chomped (b : BlockText) (chomping : Chomping) : List Char :=
  match chomping with
  | .strip => b.text.reverse
  | .clip => b.text.reverse ++ b.lastBreak
  | .keep => b.text.reverse ++ b.lastBreak ++ b.blankLines

/-- The cursor at the first line after the heading of a block scalar, whose
    signs are read. -/
def afterHeading (cur : Cursor) : Option Cursor :=
  let cur := cur.skipWhile isBlank
  let cur := if cur.peek == some '#' then cur.skipWhile (!isBreak ·) else cur
  if startsBreak cur.rest then some cur.takeBreak.2 else none

/-- **A block scalar** at the cursor, inside a block indented to `parent`. -/
def block? (folds : Bool) (parent : Int) (cur : Cursor) : Option (List Char × Cursor) := do
  let (chomping, increment, n) := blockSigns (cur.rest.drop 1)
  let cur ← afterHeading (cur.skip (n + 1))
  let given := increment.map fun n => (max parent 0).toNat + n
  let (blankLines, widest, cur) ← blockBreaks given (cur.rest.length + 1) [] 0 cur
  let indent := given.getD (max widest (max (parent + 1) 1).toNat)
  let (b, cur) ← blockLines folds indent (cur.rest.length + 1) { blankLines } cur
  return (b.chomped chomping, cur)

end PageLoom.Yaml
