import PageLoom.Proofs.Page.Visits
import PageLoom.Proofs.Site.Resolution

/-!
# Pruning — what a site holds without showing it

    A store may lose its inactive blocks, layouts and templates, and a layout
    the fields it does not show: its own markup when it shows blocks, its
    blocks when it shows markup (`Store.Prunes`).  References to what is gone
    stay where they are.

    Such a store offers the same templates to a request
    (`Prunes.offers_iff`), so it resolves alike, and what is gone left a gap
    on the page already (`blockSteps_of_prunes`, `layoutSteps_of_prunes`), so
    the steps of a page are the same.  Together they give `Renderer.page_of_prunes`:
    the page, and each decision before it.
-/

namespace PageLoom

/-- **A layout that shows the same**: its own markup may be anything if it shows
    its blocks, its blocks may be any if it shows its own markup. -/
inductive Layout.ShowsAs (l : Layout) : Layout → Prop
  | same : ShowsAs l l
  | blocks (html css js : String) :
      l.usesBlocks = true →
      ShowsAs l { l with customHtml := html, customCss := css, customJs := js }
  | markup (order : List Nat) : l.usesBlocks = false → ShowsAs l { l with blockOrder := order }

namespace Store

/-- **A store pruned of what never shows**: entities that are not active may be
    gone, layouts may have lost the fields that they do not show. -/
structure Prunes (store pruned : Store) : Prop where
  settings : pruned.settings = store.settings
  overrides : ∀ postId, pruned.overrideFor? postId = store.overrideFor? postId
  blocks : ∀ id, pruned.block? id = store.block? id ∨
    pruned.block? id = none ∧ ∀ b, store.block? id = some b → b.status ≠ .active
  layouts : ∀ id,
    (∃ l l', store.layout? id = some l ∧ pruned.layout? id = some l' ∧ l.ShowsAs l') ∨
    pruned.layout? id = none ∧ ∀ l, store.layout? id = some l → l.status ≠ .active
  templates : ∀ id, Assoc.get? id pruned.templates = Assoc.get? id store.templates ∨
    Assoc.get? id pruned.templates = none ∧
      ∀ t, Assoc.get? id store.templates = some t → t.status ≠ .active

variable {store pruned : Store} {classifier : Classifier} {request : Request}

/-! ## Resolution -/

/-- Stores that offer the same templates resolve alike. -/
theorem Keyed.resolve_congr (keyed : pruned.Keyed)
    (h : ∀ t, pruned.Offers classifier request t ↔ store.Offers classifier request t) :
    pruned.resolve classifier request = store.resolve classifier request := by
  cases hres : store.resolve classifier request with
  | none =>
      refine resolve_eq_none_iff.mpr ?_
      intro t ht
      exact resolve_eq_none_iff.mp hres t ((h t).mp ht)
  | some t =>
      exact keyed.resolve_of_subset (fun u => (h u).mp) hres ((h t).mpr (least_of_resolve hres).1)

/-- A template that can serve is active, so it is not gone. -/
theorem Prunes.offers_iff (prunes : store.Prunes pruned) (keyed : store.Keyed)
    (keyed' : pruned.Keyed) (t : Template) :
    pruned.Offers classifier request t ↔ store.Offers classifier request t := by
  rw [Offers, Offers, keyed.mem_values_iff, keyed'.mem_values_iff]
  refine and_congr_left ?_
  rintro ⟨templateType, -, hactive, -⟩
  rcases prunes.templates t.id with heq | ⟨hnone, hinactive⟩
  · rw [heq]
  · rw [hnone]
    constructor
    · intro h
      cases h
    · intro h
      exact absurd (beq_iff_eq.mp hactive) (hinactive t h)

/-- **The same template** is chosen. -/
theorem Prunes.resolve_eq (prunes : store.Prunes pruned) (built : store.Built)
    (built' : pruned.Built) :
    pruned.resolve classifier request = store.resolve classifier request :=
  built'.keyed.resolve_congr (prunes.offers_iff built.keyed built'.keyed)

end Store

namespace Renderer

open Store

/-! ## Steps -/

section Steps

variable {r : Renderer} {pruned : Store} (prunes : r.store.Prunes pruned) (context : Context)

include prunes

/-- A block that is gone had no steps. -/
theorem blockSteps_of_prunes :
    blockSteps { r with store := pruned } context = r.blockSteps context := by
  funext id
  simp only [blockSteps]
  rcases prunes.blocks id with heq | ⟨hnone, hinactive⟩
  · rw [heq]
    rfl
  · rw [hnone]
    cases hblock : r.store.block? id with
    | none => rfl
    | some b => exact (if_neg (hinactive b hblock)).symm

/-- A layout that is gone had no steps, and one that shows the same has the same
    steps. -/
theorem layoutSteps_of_prunes :
    layoutSteps { r with store := pruned } context = r.layoutSteps context := by
  funext id
  cases id with
  | none => rfl
  | some id =>
      simp only [layoutSteps, blockSteps_of_prunes prunes, Option.bind_some]
      rcases prunes.layouts id with ⟨l, l', hl, hl', hshows⟩ | ⟨hnone, hinactive⟩
      · rw [hl, hl']
        cases hshows with
        | same => rfl
        | blocks html css js hblocks => simp only [hblocks, if_true]
        | markup order hmarkup =>
            simp only [hmarkup, Bool.false_eq_true, if_false]
            rfl
      · rw [hnone]
        cases hlayout : r.store.layout? id with
        | none => rfl
        | some l => exact (if_neg (hinactive l hlayout)).symm

/-- Content: the same blocks are shown, in the same order. -/
theorem contentSteps_of_prunes (items : List ContentItem) (markup : String) :
    contentSteps { r with store := pruned } context items markup =
      r.contentSteps context items markup := by
  have hitem : itemSteps { r with store := pruned } context = r.itemSteps context := by
    funext item
    cases item with
    | block id => exact congrFun (blockSteps_of_prunes prunes context) id
    | markup text => rfl
  rw [contentSteps, hitem]
  rfl

/-- The main part of a template. -/
theorem templateMainSteps_of_prunes (t : Template) :
    templateMainSteps { r with store := pruned } context t = r.templateMainSteps context t := by
  rw [templateMainSteps, contentSteps_of_prunes prunes]
  rfl

/-- A whole template. -/
theorem templateSteps_of_prunes (t : Template) :
    templateSteps { r with store := pruned } context t = r.templateSteps context t := by
  rw [templateSteps, layoutSteps_of_prunes prunes, templateMainSteps_of_prunes prunes]
  rfl

/-- An override, with the template that it may borrow from. -/
theorem overrideSteps_of_prunes (o : Override) (t : Option Template) :
    overrideSteps { r with store := pruned } context o t = r.overrideSteps context o t := by
  have hmain : overrideMainSteps { r with store := pruned } context o t =
      r.overrideMainSteps context o t := by
    rw [overrideMainSteps, contentSteps_of_prunes prunes,
      funext (templateMainSteps_of_prunes prunes context)]
    rfl
  rw [overrideSteps, layoutSteps_of_prunes prunes, hmain]
  rfl

omit context in
/-- The default page. -/
theorem defaultSteps_of_prunes (request : Request) :
    defaultSteps { r with store := pruned } request = r.defaultSteps request := by
  rw [defaultSteps, layoutSteps_of_prunes prunes, prunes.settings]
  rfl

end Steps

/-! ## Pages -/

section Pages

variable {r : Renderer} {pruned : Store} (prunes : r.store.Prunes pruned) (request : Request)

include prunes

/-- Overrides are never gone. -/
theorem override?_of_prunes :
    override? { r with store := pruned } request = r.override? request := by
  have hlookup : pruned.overrideFor? = r.store.overrideFor? := funext prunes.overrides
  rw [override?, override?, hlookup]

theorem template?_of_prunes (built : r.store.Built) (built' : pruned.Built) :
    template? { r with store := pruned } request = r.template? request :=
  prunes.resolve_eq built built'

/-- **The steps of a page** are the same. -/
theorem requestSteps_of_prunes (built : r.store.Built) (built' : pruned.Built) :
    requestSteps { r with store := pruned } request = r.requestSteps request := by
  rw [requestSteps, requestSteps, override?_of_prunes prunes,
    template?_of_prunes prunes request built built', defaultSteps_of_prunes prunes]
  cases r.override? request with
  | some o => exact overrideSteps_of_prunes prunes _ o _
  | none =>
      cases r.template? request with
      | some t => exact templateSteps_of_prunes prunes _ t
      | none => rfl

end Pages

/-- **What never shows makes no difference.**  With a pruned store a request gets
    the same page, from the same override or template, and is taken over
    alike. -/
theorem page_of_prunes (r : Renderer) {pruned : Store} (built : r.store.Built)
    (built' : pruned.Built) (prunes : r.store.Prunes pruned) (request : Request) :
    let r' : Renderer := { r with store := pruned }
    r'.page request = r.page request ∧ r'.takesOver request = r.takesOver request ∧
      r'.template? request = r.template? request ∧
      r'.override? request = r.override? request := by
  intro r'
  have htemplate : r'.template? request = r.template? request :=
    template?_of_prunes prunes request built built'
  have hoverride : r'.override? request = r.override? request := override?_of_prunes prunes request
  have hsteps : r'.requestSteps request = r.requestSteps request :=
    requestSteps_of_prunes prunes request built built'
  have hsettings : r'.store.settings = r.store.settings := prunes.settings
  refine ⟨?_, ?_, htemplate, hoverride⟩
  · rw [page, page, run_request, run_request, hsteps]
    simp only [headCss, footJs, hsettings]
  · rw [takesOver, takesOver, hsettings, htemplate, hoverride]

/-- A draft of a block and of a template are gone, and a layout has lost the
    markup that it does not show; the layout still names the draft. -/
theorem page_of_prunes_drafts :
    let hero : Block := { id := 1, html := "<h1>x</h1>", styleScope := .global }
    let header : Layout := { id := 1, kind := .header, blockOrder := [1, 2] }
    let home : Template := { id := 1, templateType := "home", headerLayout := some 1 }
    let pruned := ((Store.insertBlock {} hero).insertLayout header).insertTemplate home
    let store := ((pruned.insertBlock { id := 2, html := "new", status := .draft }).insertLayout
      { header with customHtml := "<i>old</i>" }).insertTemplate
        { id := 2, templateType := "home", priority := 0, status := .draft }
    let r : Renderer := { store }
    let r' : Renderer := { store := pruned }
    let request : Request := { kind := .home, now := default }
    store.Prunes pruned ∧ r'.page request = r.page request ∧
      (r.page request).html =
        "<h1>x</h1><main class=\"codesite-content codesite-template-1\"></main>" := by
  intro hero header home pruned store r r' request
  have built' : pruned.Built :=
    ((Built.empty.insertBlock hero).insertLayout header).insertTemplate home
  have built : store.Built := ((built'.insertBlock _).insertLayout _).insertTemplate _
  have prunes : store.Prunes pruned := {
    settings := rfl
    overrides := fun _ => rfl
    blocks := by
      intro id
      by_cases hid : id = 2
      · subst hid
        exact .inr ⟨by decide, by decide⟩
      · left
        simp [store, pruned, Store.block?, Store.insertBlock, Store.insertLayout,
          Store.insertTemplate, Assoc.get?_insert, hid]
    layouts := by
      intro id
      by_cases hid : id = 1
      · subst hid
        exact .inl ⟨_, header, rfl, rfl, .blocks "" "" "" rfl⟩
      · right
        simp [store, pruned, header, Store.layout?, Store.insertBlock, Store.insertLayout,
          Store.insertTemplate, Assoc.get?_insert, hid]
    templates := by
      intro id
      by_cases hid : id = 2
      · subst hid
        exact .inr ⟨by decide, by decide⟩
      · left
        simp [store, pruned, Store.insertBlock, Store.insertLayout, Store.insertTemplate,
          Assoc.get?_insert, hid] }
  exact ⟨prunes, (r.page_of_prunes built built' prunes request).1, by decide +kernel⟩

end Renderer

end PageLoom
