/-!
# String literals and comments — the one scanner that all passes share

    Stylesheets are read character by character.  At each character the scan
    is in code, inside a string literal, or just after a backslash inside
    one; `Quoting.next` says how a character moves it.  Comment removal,
    segmentation, selector splitting and minification all run this same
    scanner, so they agree on what a string is.  A literal that never closes
    runs to the end of the text.

    A comment runs from `/*` outside literals to the next `*/` and is dropped
    without a replacement, so the texts on its two sides meet.  A comment
    that never closes swallows the rest.
-/

namespace PageLoom.Css

/-! ## String literals -/

/-- Where a scan stands with respect to string literals. -/
inductive Quoting
  /-- outside string literals -/
  | code
  /-- inside a literal that `quote` closes -/
  | inside (quote : Char)
  /-- after a backslash inside a literal that `quote` closes -/
  | escaped (quote : Char)
  deriving DecidableEq, Repr

/-- Whether a character opens and closes string literals. -/
def isQuote (c : Char) : Bool :=
  c == '"' || c == '\''

namespace Quoting

/-- Where the scan stands after a character. -/
def next : Quoting → Char → Quoting
  | .code, c => if isQuote c then .inside c else .code
  | .inside quote, c =>
      if c = '\\' then .escaped quote else if c = quote then .code else .inside quote
  | .escaped quote, _ => .inside quote

/-- Where the scan stands after a text. -/
def after : Quoting → List Char → Quoting
  | q, [] => q
  | q, c :: cs => after (q.next c) cs

@[simp] theorem after_nil (q : Quoting) : q.after [] = q := rfl

@[simp] theorem after_cons (q : Quoting) (c : Char) (cs : List Char) :
    q.after (c :: cs) = (q.next c).after cs := rfl

/-- Scanning two texts in turn is scanning their concatenation. -/
theorem after_append (q : Quoting) (a b : List Char) : q.after (a ++ b) = (q.after a).after b := by
  induction a generalizing q with
  | nil => rfl
  | cons c a ih => exact ih (q.next c)

end Quoting

/-! ## Comments -/

/-- Where comment removal stands. -/
inductive Stripping
  /-- outside comments -/
  | text (quoting : Quoting)
  /-- inside a comment -/
  | comment
  deriving DecidableEq, Repr

/-- The text without comments, from a state on. -/
def stripFrom : Stripping → List Char → List Char
  | _, [] => []
  | .text .code, '/' :: '*' :: cs => stripFrom .comment cs
  | .text q, c :: cs => c :: stripFrom (.text (q.next c)) cs
  | .comment, '*' :: '/' :: cs => stripFrom (.text .code) cs
  | .comment, _ :: cs => stripFrom .comment cs

/-- **Comment removal**. -/
def stripComments (css : List Char) : List Char :=
  stripFrom (.text .code) css

end PageLoom.Css
