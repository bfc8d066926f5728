import PageLoom.Css.Minify
import PageLoom.Css.Sheet
import PageLoom.Entity.Block
import PageLoom.Text.Case

/-!
# Assets — what a page collects while it is rendered

    While a page is rendered its sources hand in their stylesheets and
    scripts.  Each source counts once for stylesheets, with the first one
    that is not blank, and is told whether it was added; scripts are kept as
    often as their source is rendered.

    What is collected is written as one element per stylesheet or as one
    merged stylesheet under banners, the site's global stylesheet always
    first; the elements are named by slugs of the sources' keys.  Scripts
    are written into one element, after the site's global script.

    The assets serve one request at a time.  Rendering a request first
    empties assets that have served before, so that nothing of an earlier
    page shows up in a later one.
-/

namespace PageLoom

open Text

/-- The kind of entity that a stylesheet or script comes from. -/
inductive SourceKind
  | block
  | layout
  | template
  | override
  deriving DecidableEq, Repr

namespace SourceKind

/-- The name of a kind in element identifiers. -/
def name : SourceKind → String
  | .block => "block"
  | .layout => "layout"
  | .template => "template"
  | .override => "override"

/-- The name of a kind in banners. -/
def label : SourceKind → String
  | .block => "Block"
  | .layout => "Layout"
  | .template => "Template"
  | .override => "Override"

end SourceKind

/-! ## Slugs -/

/-- A slug after one more character, last character first: letters, digits and
    underscores stay, anything between them becomes one hyphen. -/
def slugStep (slug : List Char) (c : Char) : List Char :=
  if c.isAlphanum || c == '_' then c :: slug
  else if slug.isEmpty || slug.head? == some '-' then slug
  else '-' :: slug

/-- **The slug** of an ASCII text, in lower case and without a hyphen at its
    ends.  Only the keys of entries are named so, a name and a number in
    digits, so there are no other letters to write in ASCII first. -/
def slug (text : String) : String :=
  String.ofList (((lowerAscii text.toList).foldl slugStep []).dropWhile (· == '-')).reverse

/-- The style element with an identifier. -/
def styleElement (elementId css : String) : String :=
  "<style id=\"" ++ elementId ++ "\">\n" ++ css ++ "\n</style>\n"

/-- The identifier of the element of the global stylesheet. -/
def globalElementId : String := "codesite-global-css"

/-! ## Entries -/

/-- A stylesheet that was handed in, already confined to its scope. -/
structure StyleEntry where
  kind : SourceKind
  id : Nat
  css : String
  deriving DecidableEq, Repr

namespace StyleEntry

/-- The key of an entry: kind and identifier. -/
def key (entry : StyleEntry) : String :=
  entry.kind.name ++ "-" ++ toString entry.id

/-- The identifier of an entry's element. -/
def elementId (entry : StyleEntry) : String :=
  "codesite-" ++ slug entry.key ++ "-css"

/-- The element of an entry. -/
def element (entry : StyleEntry) : String :=
  styleElement entry.elementId entry.css

/-- The entry under its banner. -/
def banner (entry : StyleEntry) : String :=
  "\n/* " ++ entry.kind.label ++ " " ++ toString entry.id ++ " */\n" ++ entry.css ++ "\n"

end StyleEntry

/-! ## Collections -/

/-- The stylesheets of a page, in the order in which they were handed in, and
    the sources that have handed one in. -/
structure Styles where
  entries : List StyleEntry := []
  /-- the kinds and identifiers of these sources, as a set -/
  keys : List (SourceKind × Nat) := []
  deriving DecidableEq, Repr

namespace Styles

/-- Whether a source has handed in its stylesheet. -/
def contains (styles : Styles) (kind : SourceKind) (id : Nat) : Bool :=
  styles.keys.contains (kind, id)

/-- Whether a stylesheet would be added: it is not blank, and its source has
    none yet. -/
def accepts (styles : Styles) (css : String) (kind : SourceKind) (id : Nat) : Bool :=
  !isBlankText css && !styles.contains kind id

/-- A stylesheet confined to a scope, if there is one. -/
def confined (scope : Option String) (css : String) : String :=
  match scope with
  | some cls => Css.scope css cls
  | none => css

/-- **Handing in** a stylesheet: whether it was added, and the collection after
    it. -/
def add (styles : Styles) (css : String) (kind : SourceKind) (id : Nat)
    (scope : Option String) : Bool × Styles :=
  if styles.accepts css kind id then
    (true,
      { entries := styles.entries ++ [⟨kind, id, confined scope css⟩]
        keys := (kind, id) :: styles.keys })
  else (false, styles)

/-- The scope of a block's stylesheet. -/
def scopeOf (block : Block) : Option String :=
  match block.styleScope with
  | .scoped => some block.scopeClass
  | .global => none

/-- Handing in the stylesheet of a block. -/
def addBlock (styles : Styles) (block : Block) : Bool × Styles :=
  styles.add block.css .block block.id (scopeOf block)

/-- The collection alone, where nobody asks whether anything was added. -/
instance : Coe (Bool × Styles) Styles :=
  ⟨Prod.snd⟩

/-- No stylesheets, and no source that has handed one in. -/
def clear (_ : Styles) : Styles := {}

/-- **One element per source**, after one for the global stylesheet. -/
def elements (styles : Styles) (globalCss : String) : String :=
  let first :=
    if isBlankText globalCss then "" else styleElement globalElementId globalCss
  first ++ String.join (styles.entries.map StyleEntry.element)

/-- **One merged stylesheet**, minified if asked. -/
def merged (styles : Styles) (globalCss : String) (minified : Bool) : String :=
  let first := if isBlankText globalCss then "" else "/* Global CSS */\n" ++ globalCss ++ "\n"
  let css := first ++ String.join (styles.entries.map StyleEntry.banner)
  if minified then Css.minify css else css

end Styles

/-! ## Scripts -/

/-- A script that was handed in. -/
structure ScriptEntry where
  kind : SourceKind
  id : Nat
  name : String
  content : String
  deriving DecidableEq, Repr

/-- The scripts of a page, in the order in which they were handed in. -/
structure Scripts where
  entries : List ScriptEntry := []
  deriving DecidableEq, Repr

namespace Scripts

/-- **Handing in** a script; a blank one is left out. -/
def push (scripts : Scripts) (kind : SourceKind) (id : Nat) (name content : String) : Scripts :=
  if isBlankText content then scripts else ⟨scripts.entries ++ [⟨kind, id, name, content⟩]⟩

/-- **The element** of all scripts; nothing when there are none. -/
def element (scripts : Scripts) (globalJs : String) : String :=
  if isBlankText globalJs && scripts.entries.isEmpty then ""
  else
    let first := if isBlankText globalJs then "" else globalJs ++ "\n"
    let rest := String.join (scripts.entries.map fun entry => entry.content ++ "\n")
    "<script id='codesite-js'>\n" ++ first ++ rest ++ "</script>"

end Scripts

/-! ## Assets -/

/-- Stylesheets and scripts, and whether a request has been rendered with
    them. -/
structure Assets where
  styles : Styles := {}
  scripts : Scripts := {}
  isUsed : Bool := false
  deriving DecidableEq, Repr

namespace Assets

/-- Assets for a new request: emptied if they have served before. -/
def forRequest (assets : Assets) : Assets :=
  if assets.isUsed then { isUsed := true } else { assets with isUsed := true }

/-- The assets with those of a block. -/
def addBlock (assets : Assets) (block : Block) : Assets :=
  { assets with
    styles := assets.styles.addBlock block
    scripts := assets.scripts.push .block block.id block.name block.js }

/-- The assets with a stylesheet and a script of another source. -/
def addSource (assets : Assets) (kind : SourceKind) (id : Nat) (name css js : String) : Assets :=
  { assets with
    styles := assets.styles.add css kind id none
    scripts := assets.scripts.push kind id name js }

end Assets

end PageLoom
