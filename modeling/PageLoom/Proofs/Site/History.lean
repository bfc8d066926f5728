import Mathlib.Data.List.Induction
import PageLoom.Proofs.Site.Resolution

/-!
# History — what a store answers after any changes

    A store goes through insertions, removals and other settings, in whatever
    order (`afterChanges`); the store of a site does too (`ofSite_eq`).  Its
    four tables are of one make: a shelf (`Shelf`) says where a kind of entity
    is kept, under which key, and which changes concern it.

    One change does to a shelf what its laws say, so after a history the shelf
    holds under a key the last entity that was put there and not taken away
    (`Shelf.get?_eq_some_iff`).  Keys stay ascending and entities stay under
    their own, so a search by slug finds the least identifier and the templates
    of a type are the stored ones.  A change of one kind leaves the answers
    about all others (`answers_of_kind_ne`).
-/

namespace PageLoom.Store

/-! ## Changes -/

/-- **A change** of a store. -/
inductive Change
  | withSettings (settings : Settings)
  | insertBlock (block : Block)
  | insertLayout (layout : Layout)
  | insertTemplate (template : Template)
  | insertOverride (o : Override)
  | removeBlock (id : Nat)

/-- What a change is about. -/
inductive Kind
  | settings
  | block
  | layout
  | template
  | override
  deriving DecidableEq

namespace Change

/-- The store after a change. -/
def apply (store : Store) : Change → Store
  | .withSettings settings => store.withSettings settings
  | .insertBlock block => store.insertBlock block
  | .insertLayout layout => store.insertLayout layout
  | .insertTemplate template => store.insertTemplate template
  | .insertOverride o => store.insertOverride o
  | .removeBlock id => store.removeBlock id

/-- The kind of a change. -/
def kind : Change → Kind
  | .withSettings _ => .settings
  | .insertBlock _ | .removeBlock _ => .block
  | .insertLayout _ => .layout
  | .insertTemplate _ => .template
  | .insertOverride _ => .override

end Change

/-- A new store after a list of changes. -/
def afterChanges (changes : List Change) : Store :=
  changes.foldl Change.apply {}

theorem afterChanges_concat (changes : List Change) (change : Change) :
    afterChanges (changes ++ [change]) = change.apply (afterChanges changes) := by
  rw [afterChanges, List.foldl_append]
  rfl

/-- The changes that build the store of a site. -/
def changesOf (site : Site) : List Change :=
  .withSettings site.settings :: site.blocks.map .insertBlock ++
    site.layouts.map .insertLayout ++ site.templates.map .insertTemplate ++
    site.overrides.map .insertOverride

/-- **The store of a site** is reached by changes. -/
theorem ofSite_eq (site : Site) : ofSite site = afterChanges (changesOf site) := by
  simp only [afterChanges, changesOf, List.cons_append, List.foldl_cons, List.foldl_append,
    List.foldl_map]
  rfl

/-! ## Shelves -/

/-- **What a change does** to the entities of one kind. -/
inductive Effect (α : Type)
  /-- an entity is put there, in place of the one under its key -/
  | put (a : α)
  /-- the entity under a key is taken away -/
  | take (key : Nat)
  | nothing

/-- Whether an effect settles what is kept under a key. -/
def Effect.Settles {α : Type} (keyOf : α → Nat) (key : Nat) : Effect α → Prop
  | .put a => keyOf a = key
  | .take k => k = key
  | .nothing => False

/-- The entries after an effect. -/
def Effect.on {α : Type} (keyOf : α → Nat) (entries : List (Nat × α)) :
    Effect α → List (Nat × α)
  | .put a => Assoc.insert (keyOf a) a entries
  | .take k => Assoc.erase k entries
  | .nothing => entries

/-- **A shelf**: where the entities of one kind are kept, under which key, and
    what changes do to it. -/
structure Shelf (α : Type) where
  entries : Store → List (Nat × α)
  keyOf : α → Nat
  effect : Change → Effect α
  entries_new : entries {} = []
  entries_apply : ∀ (change : Change) (store : Store),
    entries (change.apply store) = (effect change).on keyOf (entries store)

/-- Blocks, by identifier.  They alone can be removed. -/
def Shelf.blocks : Shelf Block where
  entries := Store.blocks
  keyOf := Block.id
  effect
    | .insertBlock block => .put block
    | .removeBlock id => .take id
    | _ => .nothing
  entries_new := rfl
  entries_apply change store := by cases change <;> rfl

/-- Layouts, by identifier. -/
def Shelf.layouts : Shelf Layout where
  entries := Store.layouts
  keyOf := Layout.id
  effect
    | .insertLayout layout => .put layout
    | _ => .nothing
  entries_new := rfl
  entries_apply change store := by cases change <;> rfl

/-- Templates, by identifier. -/
def Shelf.templates : Shelf Template where
  entries := Store.templates
  keyOf := Template.id
  effect
    | .insertTemplate template => .put template
    | _ => .nothing
  entries_new := rfl
  entries_apply change store := by cases change <;> rfl

/-- Overrides, by the post that they are for. -/
def Shelf.overrides : Shelf Override where
  entries := Store.overrides
  keyOf := Override.postId
  effect
    | .insertOverride o => .put o
    | _ => .nothing
  entries_new := rfl
  entries_apply change store := by cases change <;> rfl

/-! ## What a shelf holds -/

namespace Shelf

variable {α : Type} (shelf : Shelf α)

/-- **The last entity** that changes put under a key: nothing later replaces it or
    takes it away. -/
def IsLast (changes : List Change) (key : Nat) (a : α) : Prop :=
  ∃ before change after, changes = before ++ change :: after ∧
    shelf.effect change = .put a ∧ shelf.keyOf a = key ∧
    ∀ later ∈ after, ¬ (shelf.effect later).Settles shelf.keyOf key

theorem not_isLast_nil (key : Nat) (a : α) : ¬ shelf.IsLast [] key a := by
  rintro ⟨before, change, after, hnil, -⟩
  exact absurd hnil.symm (by simp)

/-- One more change puts the last entity there or leaves the question to the
    changes before it. -/
theorem isLast_concat {changes : List Change} {change : Change} {key : Nat} {a : α} :
    shelf.IsLast (changes ++ [change]) key a ↔
      shelf.effect change = .put a ∧ shelf.keyOf a = key ∨
        ¬ (shelf.effect change).Settles shelf.keyOf key ∧ shelf.IsLast changes key a := by
  constructor
  · rintro ⟨before, put, after, hsplit, hput, hkey, hafter⟩
    rcases after.eq_nil_or_concat with rfl | ⟨after, last, rfl⟩
    · obtain ⟨-, hlast⟩ := List.append_inj' hsplit rfl
      obtain rfl : change = put := List.singleton_inj.mp hlast
      exact .inl ⟨hput, hkey⟩
    · rw [List.concat_eq_append, ← List.cons_append, ← List.append_assoc] at hsplit
      obtain ⟨hinit, hlast⟩ := List.append_inj' hsplit rfl
      obtain rfl : change = last := List.singleton_inj.mp hlast
      refine .inr ⟨hafter change (by simp), before, put, after, hinit, hput, hkey, ?_⟩
      intro later hlater
      exact hafter later (by simp [hlater])
  · rintro (⟨hput, hkey⟩ | ⟨hnot, before, put, after, rfl, hput, hkey, hafter⟩)
    · exact ⟨changes, change, [], rfl, hput, hkey, by simp⟩
    · refine ⟨before, put, after ++ [change], by simp, hput, hkey, ?_⟩
      intro later hlater
      rcases List.mem_append.mp hlater with h | h
      · exact hafter later h
      · rw [List.mem_singleton.mp h]
        exact hnot

/-- **A shelf holds what was put there last.** -/
theorem get?_eq_some_iff {changes : List Change} {key : Nat} {a : α} :
    Assoc.get? key (shelf.entries (afterChanges changes)) = some a ↔
      shelf.IsLast changes key a := by
  induction changes using List.reverseRecOn with
  | nil =>
      show Assoc.get? key (shelf.entries {}) = some a ↔ _
      rw [shelf.entries_new]
      exact iff_of_false (fun h => nomatch h) (shelf.not_isLast_nil key a)
  | append_singleton changes change ih =>
      rw [afterChanges_concat, shelf.entries_apply, isLast_concat]
      cases shelf.effect change with
      | put b =>
          show Assoc.get? key (Assoc.insert (shelf.keyOf b) b _) = some a ↔
            Effect.put b = .put a ∧ _ ∨ ¬ shelf.keyOf b = key ∧ _
          rw [Assoc.get?_insert, Effect.put.injEq]
          by_cases hkey : key = shelf.keyOf b
          · rw [if_pos hkey, Option.some.injEq]
            constructor
            · rintro rfl
              exact .inl ⟨rfl, hkey.symm⟩
            · rintro (⟨rfl, -⟩ | ⟨hne, -⟩)
              · rfl
              · exact absurd hkey.symm hne
          · rw [if_neg hkey, ih]
            constructor
            · exact fun h => .inr ⟨Ne.symm hkey, h⟩
            · rintro (⟨rfl, h⟩ | ⟨-, h⟩)
              · exact absurd h.symm hkey
              · exact h
      | take k =>
          show Assoc.get? key (Assoc.erase k _) = some a ↔
            Effect.take k = .put a ∧ _ ∨ ¬ k = key ∧ _
          rw [Assoc.get?_erase]
          by_cases hkey : key = k
          · simp [hkey]
          · rw [if_neg hkey, ih]
            simp [Ne.symm hkey]
      | nothing =>
          show Assoc.get? key (shelf.entries (afterChanges changes)) = some a ↔
            Effect.nothing = .put a ∧ _ ∨ ¬ False ∧ _
          rw [ih]
          simp

/-- Its keys ascend. -/
theorem sorted (changes : List Change) : Assoc.Sorted (shelf.entries (afterChanges changes)) := by
  induction changes using List.reverseRecOn with
  | nil =>
      show Assoc.Sorted (shelf.entries {})
      rw [shelf.entries_new]
      exact .nil
  | append_singleton changes change ih =>
      rw [afterChanges_concat, shelf.entries_apply]
      cases shelf.effect change with
      | put b => exact ih.insert (shelf.keyOf b) b
      | take k => exact ih.erase k
      | nothing => exact ih

/-- Its entities stand under keys of their own. -/
theorem own (changes : List Change) :
    Assoc.Own shelf.keyOf (shelf.entries (afterChanges changes)) := by
  induction changes using List.reverseRecOn with
  | nil =>
      show Assoc.Own shelf.keyOf (shelf.entries {})
      rw [shelf.entries_new]
      exact fun entry h => nomatch h
  | append_singleton changes change ih =>
      rw [afterChanges_concat, shelf.entries_apply]
      cases shelf.effect change with
      | put b => exact ih.insert b
      | take k => exact ih.erase k
      | nothing => exact ih

theorem mem_values_iff {changes : List Change} {a : α} :
    a ∈ Assoc.values (shelf.entries (afterChanges changes)) ↔
      shelf.IsLast changes (shelf.keyOf a) a := by
  rw [(shelf.sorted changes).mem_values_iff (shelf.own changes), shelf.get?_eq_some_iff]

/-- A search by a mark finds the entity on the shelf with the mark and the least
    key. -/
theorem find?_eq_some_iff {changes : List Change} {mark : α → Bool} {a : α} :
    (Assoc.values (shelf.entries (afterChanges changes))).find? mark = some a ↔
      shelf.IsLast changes (shelf.keyOf a) a ∧ mark a = true ∧
        ∀ b, shelf.IsLast changes (shelf.keyOf b) b → mark b = true →
          shelf.keyOf a ≤ shelf.keyOf b := by
  rw [(shelf.sorted changes).find?_values_eq_some_iff (shelf.own changes)]
  simp only [shelf.get?_eq_some_iff]

theorem find?_eq_none_iff {changes : List Change} {mark : α → Bool} :
    (Assoc.values (shelf.entries (afterChanges changes))).find? mark = none ↔
      ∀ a, shelf.IsLast changes (shelf.keyOf a) a → mark a = false := by
  rw [List.find?_eq_none]
  simp only [shelf.mem_values_iff, Bool.not_eq_true]

end Shelf

/-! ## Answers -/

/-- **A change leaves the answers about other kinds.** -/
theorem answers_of_kind_ne (store : Store) (change : Change) :
    (change.kind ≠ .block → (change.apply store).block? = store.block? ∧
      (change.apply store).blockBySlug? = store.blockBySlug?) ∧
    (change.kind ≠ .layout → (change.apply store).layout? = store.layout? ∧
      (change.apply store).layoutBySlug? = store.layoutBySlug?) ∧
    (change.kind ≠ .template →
      (change.apply store).templatesOfType = store.templatesOfType) ∧
    (change.kind ≠ .override → (change.apply store).overrideFor? = store.overrideFor?) ∧
    (change.kind ≠ .settings → (change.apply store).settings = store.settings) := by
  cases change <;>
    refine ⟨fun h => ?_, fun h => ?_, fun h => ?_, fun h => ?_, fun h => ?_⟩ <;>
    first | exact absurd rfl h | exact ⟨rfl, rfl⟩ | rfl

/-- The templates of a type stand strictly in the order of their ranks. -/
theorem strictly_templatesOfType (changes : List Change) (templateType : String) :
    ((afterChanges changes).templatesOfType templateType).Pairwise
      fun t u => t.rank < u.rank := by
  have distinct : ((afterChanges changes).templatesOfType templateType).Pairwise
      fun t u => t.id ≠ u.id := by
    have ascending := (Shelf.templates.sorted changes).pairwise_values
      (Shelf.templates.own changes)
    have apart := ascending.imp fun hlt => ne_of_lt hlt
    exact (List.mergeSort_perm _ _).symm.pairwise (apart.filter _) Ne.symm
  refine (pairwise_templatesOfType _ templateType).imp₂ ?_ distinct
  intro t u hle hne
  refine lt_of_le_of_ne hle ?_
  intro heq
  exact hne (congrArg Prod.snd (toLex.injective heq))

/-- **What a store answers after any changes.**  Blocks and layouts are the last
    ones put under their identifiers and not removed since, overrides the last
    ones for their posts; the templates of a type are the stored active ones,
    strictly in order of priority and identifier; a slug finds the least
    identifier; and no change shows in the answers about another kind. -/
theorem afterChanges_answers (changes : List Change) :
    let store := afterChanges changes
    (∀ id block, store.block? id = some block ↔ Shelf.blocks.IsLast changes id block) ∧
    (∀ id layout, store.layout? id = some layout ↔ Shelf.layouts.IsLast changes id layout) ∧
    (∀ postId o, store.overrideFor? postId = some o ↔
      Shelf.overrides.IsLast changes postId o) ∧
    (∀ templateType t, t ∈ store.templatesOfType templateType ↔
      Shelf.templates.IsLast changes t.id t ∧ t.templateType = templateType ∧
        t.status.isActive = true) ∧
    (∀ templateType, (store.templatesOfType templateType).Pairwise fun t u =>
      t.priority < u.priority ∨ t.priority = u.priority ∧ t.id < u.id) ∧
    (∀ slug block, store.blockBySlug? slug = some block ↔
      store.block? block.id = some block ∧ block.slug = slug ∧
        ∀ other, store.block? other.id = some other → other.slug = slug →
          block.id ≤ other.id) ∧
    (∀ slug layout, store.layoutBySlug? slug = some layout ↔
      store.layout? layout.id = some layout ∧ layout.slug = slug ∧
        ∀ other, store.layout? other.id = some other → other.slug = slug →
          layout.id ≤ other.id) ∧
    (∀ slug, store.blockBySlug? slug = none ↔
      ∀ block, store.block? block.id = some block → block.slug ≠ slug) ∧
    (∀ slug, store.layoutBySlug? slug = none ↔
      ∀ layout, store.layout? layout.id = some layout → layout.slug ≠ slug) ∧
    ∀ change : Change,
      (change.kind ≠ .block → (change.apply store).block? = store.block? ∧
        (change.apply store).blockBySlug? = store.blockBySlug?) ∧
      (change.kind ≠ .layout → (change.apply store).layout? = store.layout? ∧
        (change.apply store).layoutBySlug? = store.layoutBySlug?) ∧
      (change.kind ≠ .template →
        (change.apply store).templatesOfType = store.templatesOfType) ∧
      (change.kind ≠ .override → (change.apply store).overrideFor? = store.overrideFor?) ∧
      (change.kind ≠ .settings → (change.apply store).settings = store.settings) := by
  intro store
  have hblock : ∀ id block, store.block? id = some block ↔
      Shelf.blocks.IsLast changes id block := fun _ _ => Shelf.blocks.get?_eq_some_iff
  have hlayout : ∀ id layout, store.layout? id = some layout ↔
      Shelf.layouts.IsLast changes id layout := fun _ _ => Shelf.layouts.get?_eq_some_iff
  refine ⟨hblock, hlayout, fun _ _ => Shelf.overrides.get?_eq_some_iff, ?_, ?_, ?_, ?_, ?_, ?_,
    store.answers_of_kind_ne⟩
  · intro templateType t
    rw [mem_templatesOfType]
    exact and_congr_left fun _ => Shelf.templates.mem_values_iff
  · intro templateType
    exact (strictly_templatesOfType changes templateType).imp Prod.Lex.toLex_lt_toLex.mp
  · intro slug block
    simp only [hblock]
    exact Shelf.blocks.find?_eq_some_iff.trans (by simp [Shelf.blocks])
  · intro slug layout
    simp only [hlayout]
    exact Shelf.layouts.find?_eq_some_iff.trans (by simp [Shelf.layouts])
  · intro slug
    simp only [hblock]
    exact Shelf.blocks.find?_eq_none_iff.trans (by simp [Shelf.blocks])
  · intro slug
    simp only [hlayout]
    exact Shelf.layouts.find?_eq_none_iff.trans (by simp [Shelf.layouts])

end PageLoom.Store
