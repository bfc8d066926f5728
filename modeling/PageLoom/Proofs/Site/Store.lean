import Mathlib.Data.List.Nodup
import Mathlib.Data.Nat.Basic
import PageLoom.Proofs.Assoc
import PageLoom.Site.Store

/-!
# The store — what is reached by inserting

    A store is built from the empty one by insertions, removals and other
    settings (`Built`); the store of a site is (`built_ofSite`).  Each step
    keeps every template under its own identifier, in ascending order
    (`Keyed`), so every store that is built is so (`Built.keyed`), and its
    templates are the ones found under their identifiers
    (`Keyed.mem_values_iff`).  Templates of distinct identifiers may be
    inserted in any order (`foldl_insertTemplate_perm`).
-/

namespace PageLoom.Store

/-- **A store that is built**: from the empty one, step by step. -/
inductive Built : Store → Prop
  | empty : Built {}
  | withSettings {store : Store} (settings : Settings) :
      Built store → Built (store.withSettings settings)
  | insertBlock {store : Store} (block : Block) : Built store → Built (store.insertBlock block)
  | insertLayout {store : Store} (layout : Layout) :
      Built store → Built (store.insertLayout layout)
  | insertTemplate {store : Store} (template : Template) :
      Built store → Built (store.insertTemplate template)
  | insertOverride {store : Store} (o : Override) : Built store → Built (store.insertOverride o)
  | removeBlock {store : Store} (id : Nat) : Built store → Built (store.removeBlock id)

/-- A store stays built under a list of entities handed in one by one. -/
theorem Built.foldl {α : Type} {insert : Store → α → Store}
    (keeps : ∀ {store : Store} (entity : α), store.Built → (insert store entity).Built)
    {store : Store} (built : store.Built) (entities : List α) :
    (entities.foldl insert store).Built := by
  induction entities generalizing store with
  | nil => exact built
  | cons entity rest ih => exact ih (keeps entity built)

/-- **The store of a site** is built. -/
theorem built_ofSite (site : Site) : (ofSite site).Built := by
  have settings : Store.Built { settings := site.settings } := .withSettings site.settings .empty
  have blocks := settings.foldl Built.insertBlock site.blocks
  have layouts := blocks.foldl Built.insertLayout site.layouts
  have templates := layouts.foldl Built.insertTemplate site.templates
  exact templates.foldl Built.insertOverride site.overrides

/-- **Templates under their identifiers**, in ascending order. -/
structure Keyed (store : Store) : Prop where
  sorted : Assoc.Sorted store.templates
  own : ∀ entry ∈ store.templates, entry.1 = entry.2.id

/-- The store without a template. -/
def withoutTemplate (store : Store) (id : Nat) : Store :=
  { store with templates := Assoc.erase id store.templates }

/-- An insertion keeps templates under their identifiers. -/
theorem Keyed.insertTemplate {store : Store} (keyed : store.Keyed) (template : Template) :
    (store.insertTemplate template).Keyed where
  sorted := keyed.sorted.insert template.id template
  own := Assoc.Own.insert keyed.own template

/-- A removal keeps templates under their identifiers. -/
theorem Keyed.withoutTemplate {store : Store} (keyed : store.Keyed) (id : Nat) :
    (store.withoutTemplate id).Keyed where
  sorted := keyed.sorted.erase id
  own := Assoc.Own.erase keyed.own id

/-- **A built store** has its templates under their identifiers, in order. -/
theorem Built.keyed {store : Store} (built : store.Built) : store.Keyed := by
  induction built with
  | empty => exact ⟨.nil, by simp⟩
  | insertTemplate template _ ih => exact ih.insertTemplate template
  | withSettings _ _ ih | insertBlock _ _ ih | insertLayout _ _ ih | insertOverride _ _ ih
  | removeBlock _ _ ih =>
      -- the templates are untouched
      exact ⟨ih.sorted, ih.own⟩

/-- The templates of a store are the ones found under their identifiers. -/
theorem Keyed.mem_values_iff {store : Store} (keyed : store.Keyed) {t : Template} :
    t ∈ Assoc.values store.templates ↔ Assoc.get? t.id store.templates = some t :=
  keyed.sorted.mem_values_iff keyed.own

/-- An identifier has one template. -/
theorem Keyed.eq_of_id {store : Store} (keyed : store.Keyed) {t u : Template}
    (ht : t ∈ Assoc.values store.templates) (hu : u ∈ Assoc.values store.templates)
    (hid : t.id = u.id) : t = u := by
  rw [keyed.mem_values_iff] at ht hu
  rw [hid, hu] at ht
  exact (Option.some.inj ht).symm

/-- Under an unused identifier an insertion adds one template. -/
theorem Keyed.mem_values_insertTemplate {store : Store} (keyed : store.Keyed) {t u : Template}
    (unused : Assoc.get? t.id store.templates = none) :
    u ∈ Assoc.values (store.insertTemplate t).templates ↔
      u = t ∨ u ∈ Assoc.values store.templates := by
  rw [(keyed.insertTemplate t).mem_values_iff, keyed.mem_values_iff, Store.insertTemplate,
    Assoc.get?_insert]
  by_cases hid : u.id = t.id
  · rw [if_pos hid, hid, unused]
    simp [eq_comm]
  · have hne : u ≠ t := by
      rintro rfl
      exact hid rfl
    rw [if_neg hid]
    simp [hne]

/-- A removal takes away the template of the identifier only. -/
theorem Keyed.mem_values_withoutTemplate {store : Store} (keyed : store.Keyed) {id : Nat}
    {u : Template} :
    u ∈ Assoc.values (store.withoutTemplate id).templates ↔
      u ∈ Assoc.values store.templates ∧ u.id ≠ id := by
  rw [(keyed.withoutTemplate id).mem_values_iff, keyed.mem_values_iff, Store.withoutTemplate,
    Assoc.get?_erase]
  by_cases hid : u.id = id <;> simp [hid]

/-- **Insertion in any order**: templates with distinct identifiers leave the
    same store. -/
theorem foldl_insertTemplate_perm {ts us : List Template} (perm : ts.Perm us)
    (distinct : (ts.map (·.id)).Nodup) (store : Store) :
    ts.foldl insertTemplate store = us.foldl insertTemplate store := by
  refine perm.foldl_eq' ?_ store
  intro t ht u hu store
  by_cases hid : t.id = u.id
  · rw [List.inj_on_of_nodup_map distinct ht hu hid]
  · simp only [insertTemplate, Assoc.insert_comm hid]

end PageLoom.Store
