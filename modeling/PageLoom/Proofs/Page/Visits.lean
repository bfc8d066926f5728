import PageLoom.Page.Renderer
import PageLoom.Proofs.Page.Collection

/-!
# Visits — rendering is one walk over the sources of a page

    What a page is made of can be said without running anything: a list of
    steps, each with a piece of markup, a source that hands in its assets,
    or both (`Renderer.requestSteps`).  Header, main part and footer come in
    this order, then the sources whose assets are collected late.

    Rendering a request goes through exactly these steps
    (`Renderer.run_request_from`): one law for each part of a page, each from the
    laws of its parts.  So the markup of the page is the pieces in order,
    every source visited has its stylesheet once and its script at each
    visit, and no other source has either.
-/

namespace PageLoom

/-! ## Steps -/

/-- A step of rendering: a piece of markup, and the source that is visited. -/
structure Step where
  html : String := ""
  source : Option Source := none

/-- The markup of steps. -/
def htmlOf (steps : List Step) : String :=
  String.join (steps.map Step.html)

/-- **The visit list** of steps. -/
def visitsOf (steps : List Step) : List Source :=
  steps.filterMap Step.source

theorem htmlOf_cons (step : Step) (steps : List Step) :
    htmlOf (step :: steps) = step.html ++ htmlOf steps := by
  rw [htmlOf, List.map_cons, String.join_cons]
  rfl

theorem htmlOf_append (a b : List Step) : htmlOf (a ++ b) = htmlOf a ++ htmlOf b := by
  rw [htmlOf, List.map_append, String.join_append]
  rfl

theorem visitsOf_append (a b : List Step) : visitsOf (a ++ b) = visitsOf a ++ visitsOf b :=
  List.filterMap_append

theorem htmlOf_singleton (step : Step) : htmlOf [step] = step.html := by
  rw [htmlOf, List.map_singleton, String.join_cons, String.join_nil, String.append_empty]

namespace Renderer

section Parts

variable (r : Renderer) (context : Context)

/-- The steps of a block: one if it exists and is active. -/
def blockSteps (id : Nat) : List Step :=
  match r.store.block? id with
  | some b =>
      if b.status = .active then
        [{ html := wrapBlock b (r.fragment context b.html), source := some (.ofBlock b) }]
      else []
  | none => []

/-- The steps of a layout: its blocks in order, or one for its own markup;
    none unless it exists and is active. -/
def layoutSteps (id : Option Nat) : List Step :=
  match id.bind r.store.layout? with
  | some l =>
      if l.status = .active then
        if l.usesBlocks then l.blockOrder.flatMap (r.blockSteps context)
        else [{ html := r.fragment context l.customHtml, source := some (.ofLayout l) }]
      else []
  | none => []

/-- The steps of an entry of a content list. -/
def itemSteps : ContentItem → List Step
  | .block id => r.blockSteps context id
  | .markup text => [{ html := r.fragment context text }]

/-- The steps of a content list and the markup after it. -/
def contentSteps (items : List ContentItem) (markup : String) : List Step :=
  items.flatMap (r.itemSteps context) ++ [{ html := r.fragment context markup }]

/-- Steps inside the main element of a page. -/
def mainSteps (cls : String) (steps : List Step) : List Step :=
  { html := "<main class=\"codesite-content " ++ cls ++ "\">" } :: steps
    ++ [{ html := "</main>" }]

theorem htmlOf_mainSteps (cls : String) (steps : List Step) :
    htmlOf (mainSteps cls steps) = mainElement cls (htmlOf steps) := by
  have hhtml : ∀ opening closing : String,
      htmlOf ({ html := opening } :: steps ++ [{ html := closing }]) =
        opening ++ htmlOf steps ++ closing := by
    intro opening closing
    rw [List.cons_append, htmlOf_cons, htmlOf_append, htmlOf_singleton, String.append_assoc]
  rw [mainSteps, hhtml]
  rfl

/-- The steps of a template's main part. -/
def templateMainSteps (t : Template) : List Step :=
  mainSteps ("codesite-template-" ++ toString t.id) (r.contentSteps context t.content t.customHtml)

end Parts

/-- The steps of a page from a template: the template itself comes last. -/
def templateSteps (r : Renderer) (context : Context) (t : Template) : List Step :=
  r.layoutSteps context t.headerLayout ++ r.templateMainSteps context t
    ++ r.layoutSteps context t.footerLayout ++ [{ source := some (.ofTemplate t) }]

/-- The header layout of a page with an override. -/
def overrideHeader (o : Override) (t : Option Template) : Option Nat :=
  match o.overrideType with
  | .full | .header => o.headerLayout
  | .footer | .content => t.bind (·.headerLayout)

/-- The footer layout of a page with an override. -/
def overrideFooter (o : Override) (t : Option Template) : Option Nat :=
  match o.overrideType with
  | .full | .footer => o.footerLayout
  | .header | .content => t.bind (·.footerLayout)

/-- The steps of the main part of a page with an override: its own, or the
    template's if there is one. -/
def overrideMainSteps (r : Renderer) (context : Context) (o : Override) (t : Option Template) :
    List Step :=
  match o.overrideType with
  | .full | .content =>
      mainSteps "codesite-override" (r.contentSteps context o.content o.customHtml)
  | .header | .footer => (t.map (r.templateMainSteps context)).getD []

/-- The template is visited itself if its main part is on the page. -/
def borrowedSteps (o : Override) (t : Option Template) : List Step :=
  match o.overrideType with
  | .full | .content => []
  | .header | .footer => (t.map fun t => { source := some (.ofTemplate t) }).toList

/-- The steps of a page from an override, with the template that the missing
    parts come from.  The override itself comes last. -/
def overrideSteps (r : Renderer) (context : Context) (o : Override) (t : Option Template) :
    List Step :=
  r.layoutSteps context (overrideHeader o t) ++ r.overrideMainSteps context o t
    ++ r.layoutSteps context (overrideFooter o t) ++ borrowedSteps o t
    ++ [{ source := some (.ofOverride o) }]

/-- The steps of a page from the defaults of the site. -/
def defaultSteps (r : Renderer) (request : Request) : List Step :=
  let context : Context := { request }
  let settings := r.store.settings
  let main :=
    match settings.defaultMainLayout with
    | some id => r.layoutSteps context (some id)
    | none => [{ html := r.defaultContent request }]
  r.layoutSteps context settings.defaultHeader ++ mainSteps "codesite-default" main
    ++ r.layoutSteps context settings.defaultFooter

/-- **The steps of a request's page.** -/
def requestSteps (r : Renderer) (request : Request) : List Step :=
  match r.override? request, r.template? request with
  | some o, t => r.overrideSteps (.forPost request o.postId) o t
  | none, some t => r.templateSteps { request } t
  | none, none => r.defaultSteps request

/-! ## Collecting -/

/-- Whether a computation goes through steps: it gives their markup and hands in
    the sources visited. -/
def Collects (m : Rendering String) (steps : List Step) : Prop :=
  ∀ assets, m.run assets = (htmlOf steps, assets.takeAll (visitsOf steps))

private theorem run_bind {α β : Type} (m : Rendering α) (f : α → Rendering β) (assets : Assets) :
    (m >>= f).run assets = (f (m.run assets).1).run (m.run assets).2 := rfl

theorem collects_nil : Collects (return "") [] := fun _ => rfl

/-- Markup without a source. -/
theorem collects_markup (html : String) : Collects (return html) [{ html }] := by
  intro assets
  rw [htmlOf_singleton]
  rfl

/-- **Steps one after the other.** -/
theorem Collects.append {m n : Rendering String} {a b : List Step} (hm : Collects m a)
    (hn : Collects n b) : Collects (do return (← m) ++ (← n)) (a ++ b) := by
  intro assets
  rw [run_bind, hm, run_bind, hn, htmlOf_append, visitsOf_append, Assets.takeAll_append]
  rfl

/-- Assets handed in after the markup. -/
theorem Collects.late {m : Rendering String} {steps : List Step} (hm : Collects m steps)
    (s : Source) :
    Collects (do let html ← m; modify (·.take s); return html) (steps ++ [{ source := some s }]) := by
  intro assets
  rw [run_bind, hm, htmlOf_append, htmlOf_singleton, String.append_empty, visitsOf_append,
    Assets.takeAll_append]
  rfl

/-- Steps inside the main element. -/
theorem Collects.main {m : Rendering String} {steps : List Step} (hm : Collects m steps)
    (cls : String) : Collects (do return mainElement cls (← m)) (mainSteps cls steps) := by
  intro assets
  have hvisits : visitsOf (mainSteps cls steps) = visitsOf steps := by
    rw [mainSteps, List.cons_append, visitsOf, List.filterMap_cons_none rfl]
    exact (visitsOf_append steps _).trans (List.append_nil _)
  rw [run_bind, hm, hvisits, htmlOf_mainSteps]
  rfl

/-- Parts rendered in order. -/
theorem collects_inOrder {α : Type} {render : α → Rendering String} {steps : α → List Step}
    (h : ∀ a, Collects (render a) (steps a)) (parts : List α) :
    Collects (inOrder render parts) (parts.flatMap steps) := by
  induction parts with
  | nil => exact collects_nil
  | cons a parts ih => exact (h a).append ih

section Parts

variable (r : Renderer) (context : Context)

/-- A block that is not active is passed over. -/
theorem collects_block (b : Block) :
    Collects (r.block context b)
      (if b.status = .active then
        [{ html := wrapBlock b (r.fragment context b.html), source := some (.ofBlock b) }]
      else []) := by
  by_cases hactive : b.status = .active
  · intro assets
    have hrun : (r.block context b).run assets =
        (wrapBlock b (r.fragment context b.html), assets.addBlock b) := by
      rw [block, hactive]
      rfl
    rw [hrun, if_pos hactive, htmlOf_singleton, Assets.addBlock_eq]
    rfl
  · have hnot : ¬b.status.isActive = true := fun h => hactive (beq_iff_eq.mp h)
    rw [if_neg hactive, block, if_neg hnot]
    exact collects_nil

theorem collects_blockById (id : Nat) :
    Collects (r.blockById context id) (r.blockSteps context id) := by
  rw [blockById, blockSteps]
  cases r.store.block? id with
  | none => exact collects_nil
  | some b => exact r.collects_block context b

/-- **A layout** goes through its blocks or through its own markup. -/
theorem collects_layout (l : Layout) :
    Collects (r.layout context l)
      (if l.status = .active then
        if l.usesBlocks then l.blockOrder.flatMap (r.blockSteps context)
        else [{ html := r.fragment context l.customHtml, source := some (.ofLayout l) }]
      else []) := by
  by_cases hactive : l.status = .active
  · rw [if_pos hactive, layout, hactive, if_neg (by decide)]
    cases l.usesBlocks with
    | true =>
        rw [if_pos rfl, if_pos rfl]
        exact collects_inOrder (r.collects_blockById context) l.blockOrder
    | false =>
        intro assets
        rw [if_neg Bool.false_ne_true, if_neg Bool.false_ne_true, htmlOf_singleton]
        rfl
  · have hnot : (!l.status.isActive) = true := by
      rw [Bool.not_eq_true']
      exact beq_eq_false_iff_ne.mpr hactive
    rw [if_neg hactive, layout, if_pos hnot]
    exact collects_nil

theorem collects_layoutById (id : Option Nat) :
    Collects (r.layoutById context id) (r.layoutSteps context id) := by
  rw [layoutById, layoutSteps]
  cases id.bind r.store.layout? with
  | none => exact collects_nil
  | some l => exact r.collects_layout context l

theorem collects_item (item : ContentItem) :
    Collects (r.item context item) (r.itemSteps context item) := by
  cases item with
  | block id => exact r.collects_blockById context id
  | markup text => exact collects_markup _

/-- **A content list** and the markup after it. -/
theorem collects_content (items : List ContentItem) (markup : String) :
    Collects (r.content context items markup) (r.contentSteps context items markup) :=
  (collects_inOrder (r.collects_item context) items).append (collects_markup _)

theorem collects_templateMain (t : Template) :
    Collects (r.templateMain context t) (r.templateMainSteps context t) :=
  (r.collects_content context t.content t.customHtml).main _

/-- **A page from a template.** -/
theorem collects_template (t : Template) :
    Collects (r.template context t) (r.templateSteps context t) := by
  have hparts := ((r.collects_layoutById context t.headerLayout).append
    (r.collects_templateMain context t)).append (r.collects_layoutById context t.footerLayout)
  exact hparts.late (.ofTemplate t)

/-- The main part of an override. -/
theorem collects_overrideMain (o : Override) :
    Collects (r.overrideMain context o)
      (mainSteps "codesite-override" (r.contentSteps context o.content o.customHtml)) :=
  (r.collects_content context o.content o.customHtml).main _

/-- **A page from an override**, with or without a template. -/
theorem collects_override (o : Override) (t : Option Template) :
    Collects (r.override context o t) (r.overrideSteps context o t) := by
  have hown := r.collects_overrideMain context o
  have hlayout := r.collects_layoutById context
  rw [override, overrideSteps, overrideHeader, overrideFooter, overrideMainSteps, borrowedSteps]
  -- a header or a footer borrows the main part, if there is a template
  cases o.overrideType with
  | full =>
      dsimp only
      rw [List.append_nil]
      exact (((hlayout o.headerLayout).append hown).append (hlayout o.footerLayout)).late
        (.ofOverride o)
  | content =>
      dsimp only
      rw [List.append_nil]
      exact (((hlayout (t.bind (·.headerLayout))).append hown).append
        (hlayout (t.bind (·.footerLayout)))).late (.ofOverride o)
  | header =>
      cases t with
      | none =>
          dsimp only [Option.map_none, Option.toList_none]
          rw [List.append_nil]
          exact (((hlayout o.headerLayout).append collects_nil).append (hlayout none)).late
            (.ofOverride o)
      | some t =>
          exact ((((hlayout o.headerLayout).append (r.collects_templateMain context t)).append
            (hlayout t.footerLayout)).late (.ofTemplate t)).late (.ofOverride o)
  | footer =>
      cases t with
      | none =>
          dsimp only [Option.map_none, Option.toList_none]
          rw [List.append_nil]
          exact (((hlayout none).append collects_nil).append (hlayout o.footerLayout)).late
            (.ofOverride o)
      | some t =>
          exact ((((hlayout t.headerLayout).append (r.collects_templateMain context t)).append
            (hlayout o.footerLayout)).late (.ofTemplate t)).late (.ofOverride o)

end Parts

/-- **A page from the defaults.** -/
theorem collects_defaults (r : Renderer) (request : Request) :
    Collects (r.defaults request) (r.defaultSteps request) := by
  have hlayout := r.collects_layoutById { request }
  rw [defaults, defaultSteps]
  cases r.store.settings.defaultMainLayout with
  | none =>
      exact ((hlayout _).append ((collects_markup (r.defaultContent request)).main
        "codesite-default")).append (hlayout _)
  | some id =>
      exact ((hlayout _).append ((hlayout (some id)).main "codesite-default")).append (hlayout _)

/-- **Rendering a request is one walk** over the steps of its page, with assets
    made ready for it. -/
theorem run_request_from (r : Renderer) (request : Request) (assets : Assets) :
    (r.request request).run assets =
      (htmlOf (r.requestSteps request),
        assets.forRequest.takeAll (visitsOf (r.requestSteps request))) := by
  have hwalk : Collects
      (match r.override? request, r.template? request with
        | some o, t => r.override (.forPost request o.postId) o t
        | none, some t => r.template { request } t
        | none, none => r.defaults request) (r.requestSteps request) := by
    rw [requestSteps]
    cases r.override? request with
    | some o => exact r.collects_override _ o _
    | none =>
        cases r.template? request with
        | some t => exact r.collects_template _ t
        | none => exact r.collects_defaults request
  rw [Renderer.request, run_bind]
  exact hwalk _

/-- The same with new assets. -/
theorem run_request (r : Renderer) (request : Request) :
    (r.request request).run {} =
      (htmlOf (r.requestSteps request),
        Assets.takeAll { isUsed := true } (visitsOf (r.requestSteps request))) :=
  r.run_request_from request {}

/-- **The page is what its visits say**: the pieces of markup in order, the first
    stylesheet of each source visited, the script of every visit. -/
theorem visits_request (r : Renderer) (request : Request) :
    let visits := visitsOf (r.requestSteps request)
    let (html, assets) := (r.request request).run {}
    let styles := assets.styles.entries
    html = htmlOf (r.requestSteps request) ∧
      styles = firstOfEach ((visits.filter Source.hasStyle).map Source.styleEntry) ∧
      assets.scripts.entries = (visits.filter Source.hasScript).map Source.scriptEntry ∧
      styles.Pairwise (fun d e => ¬(d.kind = e.kind ∧ d.id = e.id)) ∧
      (∀ s ∈ visits, s.hasStyle = true → ∃ e ∈ styles, e.kind = s.kind ∧ e.id = s.id) ∧
      ∀ e ∈ styles, ∃ s ∈ visits, s.hasStyle = true ∧ s.styleEntry = e := by
  intro visits
  rw [run_request, Assets.takeAll_empty]
  refine ⟨rfl, rfl, rfl, pairwise_firstOfEach _, fun s hs hstyle => ?_, fun e he => ?_⟩
  · exact exists_mem_firstOfEach (List.mem_map_of_mem (List.mem_filter.mpr ⟨hs, hstyle⟩))
  · obtain ⟨s, hs, rfl⟩ := List.mem_map.mp (mem_of_mem_firstOfEach he)
    exact ⟨s, (List.mem_filter.mp hs).1, (List.mem_filter.mp hs).2, rfl⟩

/-- A scoped block that is met in the header, beside one that is missing, and
    twice in the main part; a footer with markup of its own; and the template. -/
theorem visits_request_template :
    let block : Block := { id := 7, name := "B", html := "b", css := "i\x7bj:k\x7d", js := "f()" }
    let header : Layout := { id := 1, blockOrder := [7, 8] }
    let footer : Layout :=
      { id := 2, name := "F", usesBlocks := false, customHtml := "c", customCss := "i\x7bl:m\x7d" }
    let template : Template :=
      { id := 5, name := "T", templateType := "page", headerLayout := some 1,
        footerLayout := some 2, content := [.block 7, .markup "d", .block 7],
        customJs := "g()" }
    let store := (((({} : Store).insertBlock block).insertLayout header).insertLayout
      footer).insertTemplate template
    let r : Renderer := { store }
    let page := (r.request { kind := .page, now := default }).run {}
    let wrapped := "<div class=\"codesite-block codesite-block-7\">b</div>"
    page.1 = wrapped ++ "<main class=\"codesite-content codesite-template-5\">" ++ wrapped ++ "d" ++
        wrapped ++ "</main>" ++ "c" ∧
      page.2.styles.entries =
        [⟨.block, 7, ".codesite-block-7 i\x7bj:k\x7d"⟩, ⟨.layout, 2, "i\x7bl:m\x7d"⟩] ∧
      page.2.scripts.entries =
        [⟨.block, 7, "B", "f()"⟩, ⟨.block, 7, "B", "f()"⟩, ⟨.block, 7, "B", "f()"⟩,
          ⟨.template, 5, "T", "g()"⟩] := by
  intro block header footer template store r page wrapped
  obtain ⟨hhtml, hstyles, hscripts, -⟩ := r.visits_request { kind := .page, now := default }
  exact ⟨hhtml.trans (by decide +kernel), hstyles.trans (by decide +kernel),
    hscripts.trans (by decide +kernel)⟩

end Renderer

end PageLoom
