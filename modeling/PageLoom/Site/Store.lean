import PageLoom.Entity.Layout
import PageLoom.Entity.Override
import PageLoom.Entity.Settings
import PageLoom.Entity.Template

/-!
# Sites and stores — the entities of a site

    A site is the settings and all entities in one document.  A store keeps
    them by identifier, each kind in order of identifiers; overrides are
    kept by the post they are for.  What is inserted under an identifier
    replaces what was there.
-/

namespace PageLoom

/-! ## Sites -/

/-- A site as it is saved. -/
structure Site where
  settings : Settings := {}
  blocks : List Block := []
  layouts : List Layout := []
  templates : List Template := []
  overrides : List Override := []
  deriving Repr

namespace Site

/-- The names of a site's fields, in order. -/
def fieldNames : List String :=
  ["settings", "blocks", "layouts", "templates", "overrides"]

/-- A site from a document. -/
def ofNode? (node : Node) : Option Site := do
  let record ← Record.ofNode? fieldNames node
  return {
    settings := ← record.get "settings" Settings.ofNode? {}
    blocks := ← record.get "blocks" (Node.list? Block.ofNode?) []
    layouts := ← record.get "layouts" (Node.list? Layout.ofNode?) []
    templates := ← record.get "templates" (Node.list? Template.ofNode?) []
    overrides := ← record.get "overrides" (Node.list? Override.ofNode?) [] }

/-- The stored form of a site. -/
def toJson (site : Site) : Json :=
  .ofMembers [("settings", site.settings.toJson),
    ("blocks", .array (site.blocks.map Block.toJson)),
    ("layouts", .array (site.layouts.map Layout.toJson)),
    ("templates", .array (site.templates.map Template.toJson)),
    ("overrides", .array (site.overrides.map Override.toJson))]

end Site

/-! ## Stores -/

/-- The entities of a site, by identifier. -/
structure Store where
  settings : Settings := {}
  blocks : List (Nat × Block) := []
  layouts : List (Nat × Layout) := []
  templates : List (Nat × Template) := []
  overrides : List (Nat × Override) := []
  deriving Repr

namespace Store

/-- The store with a block inserted or replaced. -/
def insertBlock (store : Store) (block : Block) : Store :=
  { store with blocks := Assoc.insert block.id block store.blocks }

/-- The store with a layout inserted or replaced. -/
def insertLayout (store : Store) (layout : Layout) : Store :=
  { store with layouts := Assoc.insert layout.id layout store.layouts }

/-- The store with a template inserted or replaced. -/
def insertTemplate (store : Store) (template : Template) : Store :=
  { store with templates := Assoc.insert template.id template store.templates }

/-- The store with an override inserted, replacing the one of the same post. -/
def insertOverride (store : Store) (o : Override) : Store :=
  { store with overrides := Assoc.insert o.postId o store.overrides }

/-- The store without a block.  Layouts and templates that name it keep the
    name. -/
def removeBlock (store : Store) (id : Nat) : Store :=
  { store with blocks := Assoc.erase id store.blocks }

/-- The store with other settings. -/
def withSettings (store : Store) (settings : Settings) : Store :=
  { store with settings }

/-- The store of a site. -/
def ofSite (site : Site) : Store :=
  let store : Store := { settings := site.settings }
  let store := site.blocks.foldl insertBlock store
  let store := site.layouts.foldl insertLayout store
  let store := site.templates.foldl insertTemplate store
  site.overrides.foldl insertOverride store

/-- The block with an identifier. -/
def block? (store : Store) (id : Nat) : Option Block :=
  Assoc.get? id store.blocks

/-- The layout with an identifier. -/
def layout? (store : Store) (id : Nat) : Option Layout :=
  Assoc.get? id store.layouts

/-- The override of a post. -/
def overrideFor? (store : Store) (postId : Nat) : Option Override :=
  Assoc.get? postId store.overrides

/-- The block with a slug and the least identifier. -/
def blockBySlug? (store : Store) (slug : String) : Option Block :=
  (Assoc.values store.blocks).find? (·.slug == slug)

/-- The layout with a slug and the least identifier. -/
def layoutBySlug? (store : Store) (slug : String) : Option Layout :=
  (Assoc.values store.layouts).find? (·.slug == slug)

/-- Whether one template comes before another: the lower priority, and of
    equal priorities the lower identifier. -/
def comesFirst (a b : Template) : Bool :=
  a.priority < b.priority || (a.priority == b.priority && a.id ≤ b.id)

/-- **The templates of a type**: the active ones, in order of priority and
    identifier. -/
def templatesOfType (store : Store) (templateType : String) : List Template :=
  ((Assoc.values store.templates).filter fun t =>
    t.templateType == templateType && t.status.isActive).mergeSort comesFirst

end Store

end PageLoom
