import PageLoom.Calendar.Pattern
import PageLoom.Calendar.Reader
import PageLoom.Content.Context
import PageLoom.Html.Encoding
import PageLoom.Html.Tag
import PageLoom.Text.Case

/-!
# Filters — what tokens do to values

    A filter takes a value and an optional argument.  Most work on the
    displayed text of the value.  A name without a filter leaves the value
    alone.
-/

namespace PageLoom

open Text

/-- What a filter does to a value, given its argument. -/
abbrev Filter := Json → Option String → Context → Json

/-- Filters by name. -/
structure FilterRegistry where
  entries : List (String × Filter) := []

namespace FilterRegistry

/-- The registry with a filter added or replaced. -/
def register (filters : FilterRegistry) (name : String) (filter : Filter) : FilterRegistry :=
  ⟨Assoc.insert name filter filters.entries⟩

/-- Whether a name has a filter. -/
def contains (filters : FilterRegistry) (name : String) : Bool :=
  (Assoc.get? name filters.entries).isSome

/-- **Filtering**: the value after the filter of a name. -/
def apply (filters : FilterRegistry) (name : String) (value : Json) (arg : Option String)
    (context : Context) : Json :=
  match Assoc.get? name filters.entries with
  | some filter => filter value arg context
  | none => value

end FilterRegistry

namespace Filter

/-- A filter that maps the displayed text and has no argument. -/
def ofText (f : List Char → List Char) : Filter := fun value _ _ =>
  .string (String.ofList (f value.display.toList))

/-- The count that an argument gives, or the default if it is none or zero. -/
def count (arg : Option String) (default : Nat) : Nat :=
  ((arg.bind fun a => word? (trim a.toList)).filter (0 < ·)).getD default

/-- The text with its first character in upper case. -/
def capitalize : List Char → List Char
  | [] => []
  | c :: cs => upperOf c ++ cs

/-- The text with every character after white space in upper case, and its
    first if `atStart`. -/
def capitalizeWords (atStart : Bool) : List Char → List Char
  | [] => []
  | c :: cs => (if atStart then upperOf c else [c]) ++ capitalizeWords (isBlank c) cs

/-- The first characters of a text, with dots when there are more. -/
def truncateTo (length : Nat) (cs : List Char) : List Char :=
  if cs.length > length then cs.take length ++ ['.', '.', '.'] else cs

/-- Cuts a text to a number of characters, a hundred by default. -/
def truncate : Filter := fun value arg _ =>
  .string (String.ofList (truncateTo (count arg 100) value.display.toList))

/-- Cuts a text to a number of words, twenty by default. -/
def firstWords : Filter := fun value arg _ =>
  .string (Html.firstWords (count arg 20) value.display)

/-- The instant that a value denotes: seconds or the text of a date. -/
def instantOf : Json → Option Instant
  | .number n => n.integer?.bind fun seconds => Instant.read? (toString seconds)
  | value => Instant.read? value.display

/-- Writes a date by a pattern, the site's by default.  What is no date stays
    as it is. -/
def date : Filter := fun value arg context =>
  let pattern := (arg.filter (!·.isEmpty)).getD context.request.site.dateFormat
  match instantOf value with
  | some t => .string (Pattern.format t pattern)
  | none => value

/-- Puts the argument in the place of an empty value. -/
def default : Filter := fun value arg _ =>
  if value.isBlankValue then .string (arg.getD "") else value

/-- Escapes for markup. -/
def escape : Filter := fun value _ _ =>
  .string (Html.escape value.display)

/-- Leaves the value alone. -/
def raw : Filter := fun value _ _ => value

/-- The text with a line break element before every line end. -/
def breakLines : List Char → List Char
  | [] => []
  | '\r' :: '\n' :: cs => breakElement ++ '\r' :: '\n' :: breakLines cs
  | c :: cs =>
      if c == '\n' || c == '\r' then breakElement ++ c :: breakLines cs else c :: breakLines cs
where
  /-- the line break element -/
  breakElement : List Char := ['<', 'b', 'r', ' ', '/', '>']

/-- The JSON text of the value. -/
def json : Filter := fun value _ _ =>
  .string value.print

/-- Encodes for the query of an address. -/
def encodeQuery : Filter := fun value _ _ =>
  .string (Html.encodeQuery value.display)

/-- Cleans an address. -/
def cleanUrl : Filter := fun value _ _ =>
  .string (Html.cleanUrl value.display)

end Filter

/-- **The built-in filters**, by name. -/
def FilterRegistry.builtIn : FilterRegistry :=
  ⟨Assoc.ofList
    [("upper", Filter.ofText upper), ("lower", Filter.ofText lower),
      ("ucfirst", Filter.ofText Filter.capitalize),
      ("ucwords", Filter.ofText (Filter.capitalizeWords true)),
      ("truncate", Filter.truncate), ("words", Filter.firstWords), ("date", Filter.date),
      ("default", Filter.default), ("escape", Filter.escape), ("raw", Filter.raw),
      ("strip_tags", Filter.ofText Html.stripTags), ("nl2br", Filter.ofText Filter.breakLines),
      ("json", Filter.json), ("urlencode", Filter.encodeQuery), ("esc_attr", Filter.escape),
      ("esc_url", Filter.cleanUrl)]⟩

end PageLoom
