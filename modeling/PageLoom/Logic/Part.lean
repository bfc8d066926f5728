import PageLoom.Logic.Token

/-!
# Parts of a template — text, tags and what trims between them

    A template is text with tags in braces.  A minus sign inside the braces
    takes away the white space on that side.  Comments vanish and raw blocks
    are kept as they are, but both can trim like tags.  `partsOf` reads a
    text from the left; `trimmed` then takes away the white space before
    the tags that ask for it.
-/

namespace PageLoom.Logic

open Text

/-- A part of a template.  `trims` says whether the part takes away the white
    space before it. -/
inductive Part
  | char (c : Char)
  | verbatim (trims : Bool) (text : List Char)
  | print (trims : Bool) (tokens : List Token)
  | block (trims : Bool) (tokens : List Token)
  deriving DecidableEq, Repr

/-- Whether a text goes on with the kind of a tag. -/
def opensTag : List Char → Bool
  | c :: _ => c == '{' || c == '%' || c == '#'
  | [] => false

/-- The white-space sign at the start of a text: whether it trims, and what
    follows it. -/
def sign : List Char → Bool × List Char
  | '-' :: cs => (true, cs)
  | '+' :: cs => (false, cs)
  | cs => (false, cs)

/-- The text without leading white space, if `trims`. -/
def afterTrim (trims : Bool) (cs : List Char) : List Char :=
  if trims then trimStart cs else cs

/-- What follows a block that holds only the word `word`, whose opening braces
    and sign are read, and whether its end trims. -/
def bareBlock? (word cs : List Char) : Option (Bool × List Char) := do
  let rest ← afterLead word (cs.dropWhile isSpacing)
  let (trims, rest) := sign (rest.dropWhile isSpacing)
  let rest ← afterLead ['%', '}'] rest
  return (trims, rest)

/-- The end of a raw block: whether it trims on either side, and what follows
    it. -/
structure RawEnd where
  trimsBefore : Bool
  trimsAfter : Bool
  rest : List Char

/-- The block that ends a raw block at the start of a text. -/
def rawEnd? (cs : List Char) : Option RawEnd := do
  let rest ← afterLead ['{', '%'] cs
  let (trimsBefore, rest) := sign rest
  let (trimsAfter, rest) ← bareBlock? ['e', 'n', 'd', 'r', 'a', 'w'] rest
  return ⟨trimsBefore, trimsAfter, rest⟩

/-- The text up to the first block that ends a raw block, and that block. -/
def rawBody? : List Char → Option (List Char × RawEnd)
  | [] => none
  | c :: cs =>
      match rawEnd? (c :: cs) with
      | some finish => some ([], finish)
      | none => (rawBody? cs).map fun (body, finish) => (c :: body, finish)

/-- A comment whose opening braces are read: whether its end trims, and what
    follows it. -/
def comment? (trims : Bool) (cs : List Char) : Option (Bool × List Char) :=
  (cutAt ['#', '}'] cs).map fun (body, rest) =>
    (match body.getLast? with
      | some c => c == '-'
      | none => trims, rest)

/-- The part that a tag makes, the kind of which is read, and what follows it
    after trimming. -/
def tag? (kind : Char) (cs : List Char) : Option (Part × List Char) :=
  let (trims, cs) := sign cs
  if kind == '{' then do
    let (tokens, trimsAfter, rest) ← tagTokens false (cs.length + 1) cs
    return (.print trims tokens, afterTrim trimsAfter rest)
  else if kind == '#' then do
    let (trimsAfter, rest) ← comment? trims cs
    return (.verbatim trims [], afterTrim trimsAfter rest)
  else
    match bareBlock? ['r', 'a', 'w'] cs with
    | some (trimsInside, rest) => do
        let (body, finish) ← rawBody? rest
        let body := afterTrim trimsInside body
        let body := if finish.trimsBefore then trimEnd body else body
        return (.verbatim trims body, afterTrim finish.trimsAfter finish.rest)
    | none => do
        let (tokens, trimsAfter, rest) ← tagTokens true (cs.length + 1) cs
        return (.block trims tokens, afterTrim trimsAfter rest)

/-- **The parts of a text.**  `fuel` is at least its length. -/
def partsOf : Nat → List Char → Option (List Part)
  | _, [] => some []
  | 0, _ => none
  | fuel + 1, c :: cs =>
      if c == '{' && opensTag cs then do
        let (part, rest) ← tag? (cs.headD ' ') (cs.drop 1)
        let parts ← partsOf fuel rest
        return part :: parts
      else (partsOf fuel cs).map (.char c :: ·)

/-- Whether the first part takes away the white space before it. -/
def startsTrimming : List Part → Bool
  | .verbatim trims _ :: _ => trims
  | .print trims _ :: _ => trims
  | .block trims _ :: _ => trims
  | _ => false

/-- The parts without the white space that they take away before them. -/
def trimmed : List Part → List Part
  | [] => []
  | .char c :: parts =>
      let rest := trimmed parts
      if isBlank c && startsTrimming rest then rest else .char c :: rest
  | part :: parts => part :: trimmed parts

/-- The text without one line end at its end. -/
def withoutFinalNewline (cs : List Char) : List Char :=
  let cs := if cs.getLast? = some '\n' then cs.dropLast else cs
  if cs.getLast? = some '\r' then cs.dropLast else cs

/-- **Reading a template**: its parts, without its final line end. -/
def readParts (text : List Char) : Option (List Part) :=
  let text := withoutFinalNewline text
  (partsOf text.length text).map trimmed

end PageLoom.Logic
