import PageLoom.Css.Quoting
import PageLoom.Css.Segment
import PageLoom.Text.Blank
import PageLoom.Text.Case
import PageLoom.Text.Search

/-!
# Stylesheets — reading, scoping and writing a sheet of rules

    A selector list is split at its top-level commas: those outside strings,
    parentheses and brackets.  Each member is then put under the scope class
    `c` as a descendant, `.c member`.  A leading `:root` becomes the class
    itself, and members that start with `@` or hold a `%` (they name
    at-rules and keyframes) are left alone.

    A stylesheet is a list of items: style rules, grouping at-rules with a
    sheet inside, and other text that is kept as it is.  `itemsOf` reads
    the items leniently and leaves out what has no meaning (text without a
    block, at-rules whose block never closes).  `scope` confines the style
    rules at every depth to a class and writes the sheet, one item a line.
-/

namespace PageLoom.Css

open Text

/-! ## Selectors -/

/-- The members of a selector list whose scan stands at `quoting` and `depth`,
    with `read` the characters of the current member, last first. -/
def membersFrom (quoting : Quoting) (depth : Nat) (read : List Char) :
    List Char → List (List Char)
  | [] => [read.reverse]
  | c :: cs =>
      let q := quoting.next c
      if quoting ≠ .code then membersFrom q depth (c :: read) cs
      else if c = '(' || c = '[' then membersFrom q (depth + 1) (c :: read) cs
      else if c = ')' || c = ']' then membersFrom q (depth - 1) (c :: read) cs
      else if c = ',' && depth = 0 then read.reverse :: membersFrom q 0 [] cs
      else membersFrom q depth (c :: read) cs

/-- The members of a selector list. -/
def selectorMembers (selectors : List Char) : List (List Char) :=
  membersFrom .code 0 [] selectors

/-- The name of a scope class: white space around it and dots before it are
    dropped. -/
def scopeName (name : List Char) : List Char :=
  (trim name).dropWhile (· == '.')

/-- One member under the class `cls`. -/
def scopeMember (cls member : List Char) : List Char :=
  if member.head? = some '@' || member.contains '%' then member
  else
    match afterLead [':', 'r', 'o', 'o', 't'] member with
    | some rest => '.' :: cls ++ rest
    | none => '.' :: cls ++ ' ' :: member

/-- The members of a selector list under the class `cls`, blank ones left
    out. -/
def scopeMembers (cls selectors : List Char) : List (List Char) :=
  (((selectorMembers selectors).map trim).filter fun m => !m.isEmpty).map (scopeMember cls)

/-- A selector list under the class that a name gives. -/
def scopeList (name selectors : List Char) : List Char :=
  [',', ' '].intercalate (scopeMembers (scopeName name) selectors)

/-- **Scoping selectors**: the selector list with every member confined to the
    class `name`. -/
def scopeSelectors (selectors name : String) : String :=
  String.ofList (scopeList name.toList selectors.toList)

/-! ## Sheets -/

/-- A piece of a stylesheet that has a meaning. -/
inductive Item
  /-- a style rule: selectors and the text of its block -/
  | rule (selectors body : List Char)
  /-- an at-rule that holds style rules -/
  | group (heading : List Char) (items : List Item)
  /-- an at-rule kept as written -/
  | verbatim (text : List Char)

/-- At-rules whose blocks hold style rules. -/
def groupingNames : List String :=
  ["media", "supports", "container", "layer", "document"]

/-- Characters of an at-rule's name. -/
def isAtNameChar (c : Char) : Bool :=
  c.isAlphanum || c == '-' || c == '_'

/-- The name of the at-rule that a text starts with, in lower case and without
    a vendor mark such as `-moz-`. -/
def atRuleName (text : List Char) : List Char :=
  let name := lowerAscii ((text.drop 1).takeWhile isAtNameChar)
  match name with
  | '-' :: rest =>
      match cutAtChar '-' rest with
      | some (_, name) => name
      | none => rest
  | _ => name

/-- Whether the at-rule that a text starts with holds style rules. -/
def isGrouping (text : List Char) : Bool :=
  groupingNames.contains (String.ofList (atRuleName text))

/-- The text without one closing brace at its end. -/
def withoutClose (text : List Char) : List Char :=
  if text.getLast? = some '}' then text.dropLast else text

theorem length_withoutClose_le (text : List Char) :
    (withoutClose text).length ≤ text.length := by
  rw [withoutClose]
  split <;> simp

/-- The text before and after the first opening brace. -/
def cutAtBrace (text : List Char) : Option (List Char × List Char) :=
  cutAtChar '{' text

theorem length_of_cutAtBrace {text before after : List Char}
    (h : cutAtBrace text = some (before, after)) : after.length < text.length := by
  rw [(cutAtChar_eq_some_iff.mp h).1]
  simp only [List.length_append, List.length_cons]
  omega

/-- **Reading a sheet**: the items of a text without comments. -/
def itemsOf (css : List Char) : List Item :=
  (segments css).attach.filterMap fun ⟨segment, _⟩ =>
    let text := trim segment.text
    match _cut : cutAtBrace text with
    | none => if text.head? = some '@' then some (.verbatim text) else none
    | some (before, after) =>
        if text.head? = some '@' then
          if !segment.isClosed then none
          else if isGrouping text then some (.group (trim before) (itemsOf (withoutClose after)))
          else some (.verbatim text)
        else some (.rule before (trim (withoutClose after)))
termination_by css.length
decreasing_by
  have h1 := length_of_mem_segments ‹_›
  have h2 : text.length ≤ segment.text.length := length_trim_le _
  have h3 := length_of_cutAtBrace _cut
  have h4 := length_withoutClose_le after
  omega

/-- One item a line. -/
def joinLines (lines : List (List Char)) : List Char :=
  ['\n'].intercalate lines

mutual
/-- An item confined to the class of a name, as text; none when nothing of it
    remains. -/
def Item.scoped? (name : List Char) : Item → Option (List Char)
  | .verbatim text => some text
  | .rule selectors body =>
      let members := scopeList name selectors
      if body.isEmpty || members.isEmpty then none
      else some (members ++ '{' :: body ++ ['}'])
  | .group heading items =>
      let inner := joinLines (scopedItems name items)
      if inner.isEmpty then none
      else some (heading ++ '{' :: '\n' :: inner ++ ['\n', '}'])

/-- The items that remain under the class of a name, as texts. -/
def scopedItems (name : List Char) : List Item → List (List Char)
  | [] => []
  | item :: items =>
      match item.scoped? name with
      | some text => text :: scopedItems name items
      | none => scopedItems name items
end

/-- The text of a stylesheet confined to the class of a name.  The name is
    cleaned here and again for each selector list. -/
def scopeChars (name css : List Char) : List Char :=
  joinLines (scopedItems (scopeName name) (itemsOf (stripComments css)))

/-- **Scoping**: the stylesheet with every style rule confined to the class
    `name`. -/
def scope (css name : String) : String :=
  String.ofList (scopeChars name.toList css.toList)

end PageLoom.Css
