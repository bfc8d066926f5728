import PageLoom.Entity.Column

/-!
# Settings — the switches of a site

    Settings have a fixed set of fields; all other keys are kept as they
    are and can be asked for by name.  `get` answers for both and gives the
    caller's default when a key is missing or null.
-/

namespace PageLoom

/-- How the collected stylesheets are written into a page. -/
inductive OutputMode
  /-- one element per source -/
  | inline
  /-- one merged stylesheet -/
  | file
  deriving DecidableEq, Repr

namespace OutputMode

/-- The stored name. -/
def name : OutputMode → String
  | .inline => "inline"
  | .file => "file"

/-- The mode of a name; an unknown name is inline. -/
def ofName (name : String) : OutputMode :=
  if name == "file" then .file else .inline

end OutputMode

/-- The settings of a site. -/
structure Settings where
  enabled : Bool := true
  themeOverride : Bool := false
  outputMode : OutputMode := .inline
  minifyOutput : Bool := false
  defaultHeader : Option Nat := none
  defaultFooter : Option Nat := none
  defaultMainLayout : Option Nat := none
  globalCss : String := ""
  globalJs : String := ""
  templateLogic : Bool := true
  /-- keys without meaning to this library, in order -/
  extra : List (String × Json) := []
  deriving Repr

namespace Settings

/-- The names of the fixed fields. -/
def fieldNames : List String :=
  ["enabled", "theme_override", "output_mode", "minify_output", "default_header",
    "default_footer", "default_main_layout", "global_css", "global_js", "template_logic"]

/-- The keys of a mapping that are no fixed fields, in order of keys. -/
def extraOf (entries : List (String × Node)) : Option (List (String × Json)) := do
  let pairs ← (entries.filter fun (key, _) => !fieldNames.contains key).mapM
    fun (key, value) => value.json?.map (key, ·)
  return Assoc.ofList pairs

/-- Settings from a document: always a mapping. -/
def ofNode? (node : Node) : Option Settings := do
  let entries ← node.entries?
  let record ← Record.select fieldNames entries
  let optionalId := Column.lenient Column.optionalId
  return {
    enabled := ← record.get "enabled" Node.bool? true
    themeOverride := ← record.get "theme_override" Node.bool? false
    outputMode := ← record.get "output_mode" (fun n => n.text?.map OutputMode.ofName) .inline
    minifyOutput := ← record.get "minify_output" Node.bool? false
    defaultHeader := ← record.get "default_header" optionalId none
    defaultFooter := ← record.get "default_footer" optionalId none
    defaultMainLayout := ← record.get "default_main_layout" optionalId none
    globalCss := ← record.get "global_css" Node.text? ""
    globalJs := ← record.get "global_js" Node.text? ""
    templateLogic := ← record.get "template_logic" Node.bool? true
    extra := ← extraOf entries }

/-- The fixed fields in stored form. -/
def fixedMembers (s : Settings) : List (String × Json) :=
  [("enabled", .bool s.enabled), ("theme_override", .bool s.themeOverride),
    ("output_mode", .string s.outputMode.name), ("minify_output", .bool s.minifyOutput),
    ("default_header", .ofOption .ofNat s.defaultHeader),
    ("default_footer", .ofOption .ofNat s.defaultFooter),
    ("default_main_layout", .ofOption .ofNat s.defaultMainLayout),
    ("global_css", .string s.globalCss), ("global_js", .string s.globalJs),
    ("template_logic", .bool s.templateLogic)]

/-- The stored form of settings. -/
def toJson (s : Settings) : Json :=
  .ofMembers (s.fixedMembers ++ s.extra)

/-- **Look-up by name**: the value under a key, or the default when there is
    none or it is null. -/
def get (s : Settings) (key : String) (default : Json) : Json :=
  match s.toJson.member? key with
  | none | some .null => default
  | some value => value

end Settings

end PageLoom
