import PageLoom.Shortcode.Span
import PageLoom.Content.Engine

/-!
# Expansion — shortcodes replaced by what their handlers write

    Shortcodes count only inside wrappers, `<SCD>` to the next `</SCD>`.
    Expansion takes the wrappers away and replaces the shortcodes of known
    tags in them; what a handler writes, and what it encloses, is not read
    again.
-/

namespace PageLoom

open Text

/-- What a shortcode writes, given its attributes and what it encloses. -/
abbrev Handler := Shortcode.Attributes → Option String → Context → String

/-- Handlers by tag. -/
structure Shortcodes where
  handlers : List (String × Handler) := []

namespace Shortcodes

open Shortcode

/-- The table with the handler of a tag added or replaced. -/
def register (codes : Shortcodes) (tag : String) (handler : Handler) : Shortcodes :=
  ⟨Assoc.insert tag handler codes.handlers⟩

/-- Whether a tag has a handler. -/
def isRegistered (codes : Shortcodes) (tag : String) : Bool :=
  (Assoc.get? tag codes.handlers).isSome

/-- What a call writes. -/
def write (codes : Shortcodes) (context : Context) (call : Call) : List Char :=
  match Assoc.get? (String.ofList call.tag) codes.handlers with
  | some handler =>
      (handler (attributesOf call.attributes) (call.inner.map String.ofList) context).toList
  | none => []

/-- The characters of a span, a call expanded. -/
def expandSpan (codes : Shortcodes) (context : Context) : Span → List Char
  | .text cs => cs
  | .call call => codes.write context call

/-- **Expansion** of the shortcodes in the content of a wrapper. -/
def expand (codes : Shortcodes) (context : Context) (text : List Char) : List Char :=
  (spans (fun tag => codes.isRegistered (String.ofList tag)) text).flatMap
    (codes.expandSpan context)

/-- The start of a wrapper. -/
def wrapperStart : List Char := ['<', 'S', 'C', 'D', '>']

/-- The end of a wrapper. -/
def wrapperEnd : List Char := ['<', '/', 'S', 'C', 'D', '>']

/-- The text with the content of every wrapper expanded and the wrapper taken
    away. -/
def unwrap (codes : Shortcodes) (context : Context) (text : List Char) : List Char :=
  match _start : cutAt wrapperStart text with
  | none => text
  | some (before, rest) =>
      match _end : cutAt wrapperEnd rest with
      | none => text
      | some (inner, after) => before ++ codes.expand context inner ++ unwrap codes context after
termination_by text.length
decreasing_by
  have h1 := length_of_cutAt _start
  have h2 := length_of_cutAt _end
  simp only [wrapperStart, wrapperEnd, List.length_cons, List.length_nil] at h1 h2
  omega

/-- **The stage of shortcodes.**  It guards no values: their text reaches it
    unmarked. -/
def stage (codes : Shortcodes) : Stage :=
  { edit := fun context text => String.ofList (codes.unwrap context text.toList) }

end Shortcodes

end PageLoom
