import PageLoom.Text.CaseTable

/-!
# Letter case — whole texts in upper and lower case

    A text is put in upper case character by character.  Lower case needs
    its surroundings for one letter only: a capital sigma becomes the final
    form when a cased character stands before it and none after it, the
    characters that case ignores being passed over in both directions.
-/

namespace PageLoom.Text

/-- Whether a code point lies in one of the inclusive ranges. -/
def inRanges (ranges : List (Nat × Nat)) (n : Nat) : Bool :=
  ranges.any fun (first, last) => first ≤ n && n ≤ last

/-- The image of a code point under a regular mapping; itself when no run
    covers it. -/
def mapByRuns (runs : List CaseRun) (n : Nat) : Nat :=
  match runs.find? fun r => r.first ≤ n && n ≤ r.last && (n - r.first) % r.step == 0 with
  | some r => ((n : Int) + r.shift).toNat
  | none => n

/-- A character's image under a case mapping with expansions. -/
def mapCase (expansions : List (Nat × List Nat)) (runs : List CaseRun) (c : Char) : List Char :=
  match expansions.lookup c.toNat with
  | some ns => ns.map Char.ofNat
  | none => [Char.ofNat (mapByRuns runs c.toNat)]

/-- The upper case of a character. -/
def upperOf (c : Char) : List Char :=
  if c.toNat < 0x80 then [c.toUpper] else mapCase upperExpansions upperRuns c

/-- The lower case of a character by itself. -/
def lowerOf (c : Char) : List Char :=
  if c.toNat < 0x80 then [c.toLower] else mapCase lowerExpansions lowerRuns c

/-- A text in upper case. -/
def upper (cs : List Char) : List Char :=
  cs.flatMap upperOf

/-- Whether the first character that case does not ignore is cased. -/
def startsCased (cs : List Char) : Bool :=
  match cs.dropWhile fun c => inRanges caseIgnorableRanges c.toNat with
  | [] => false
  | c :: _ => inRanges casedRanges c.toNat

/-- Lower case of a text whose part already read is `before`, last character
    first. -/
def lowerFrom (before : List Char) : List Char → List Char
  | [] => []
  | c :: cs =>
      let image :=
        if c == 'Σ' then
          if startsCased before && !startsCased cs then ['ς'] else ['σ']
        else lowerOf c
      image ++ lowerFrom (c :: before) cs

/-- A text in lower case. -/
def lower (cs : List Char) : List Char :=
  lowerFrom [] cs

/-- A text in which the ASCII letters are lower case. -/
def lowerAscii (cs : List Char) : List Char :=
  cs.map Char.toLower

end PageLoom.Text
