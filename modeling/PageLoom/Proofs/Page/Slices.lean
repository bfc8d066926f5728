import PageLoom.Proofs.Page.Visits

/-!
# Slices — what a page with an override takes from the template

    A page has three slices: header, main part and footer.  The type of an
    override says which of them it brings (`OverrideType.brings`); the others
    are borrowed from the template, and are empty without one.

    Rendering an override goes through the steps of the three slices in order
    and through the late sources, which have no markup: the template if its
    main part is borrowed, then the override itself (`overrideSteps_eq`).  Only
    blocks and layouts hand in assets within the slices
    (`fromParts_sliceSteps`), so the assets of the late sources stand at the
    end, each once.

    What is not borrowed cannot be seen: templates that agree on what an
    override borrows give the same steps (`overrideSteps_of_alike`).
-/

namespace PageLoom

/-- The slices of a page. -/
inductive Slice
  | header
  | main
  | footer
  deriving DecidableEq, Repr

/-- **The matrix**: whether an override of a type brings a slice itself. -/
def OverrideType.brings : OverrideType → Slice → Bool
  | .full, _ => true
  | .header, slice => slice == .header
  | .footer, slice => slice == .footer
  | .content, slice => slice == .main

/-- Whether two templates agree on all that an override of a type may borrow. -/
def OverrideType.Alike : OverrideType → Option Template → Option Template → Prop
  | .full, _, _ => True
  | .content, t, t' =>
      t.bind (·.headerLayout) = t'.bind (·.headerLayout) ∧
        t.bind (·.footerLayout) = t'.bind (·.footerLayout)
  | .header, t, t' =>
      t.map ({ · with headerLayout := none }) = t'.map ({ · with headerLayout := none })
  | .footer, t, t' =>
      t.map ({ · with footerLayout := none }) = t'.map ({ · with footerLayout := none })

namespace Renderer

section Slices

variable (r : Renderer) (context : Context) (o : Override) (t : Option Template)

/-- A slice that the override brings. -/
def ownSlice : Slice → Rendering String
  | .header => r.layoutById context o.headerLayout
  | .main => r.overrideMain context o
  | .footer => r.layoutById context o.footerLayout

/-- A slice of the template; nothing without one. -/
def borrowedSlice : Option Template → Slice → Rendering String
  | none, _ => return ""
  | some t, .header => r.layoutById context t.headerLayout
  | some t, .main => r.templateMain context t
  | some t, .footer => r.layoutById context t.footerLayout

/-- **A slice of the page.** -/
def slice (slice : Slice) : Rendering String :=
  if o.overrideType.brings slice then r.ownSlice context o slice
  else r.borrowedSlice context t slice

/-- The text of a slice. -/
def sliceText (slice : Slice) : String :=
  ((r.slice context o t slice).run {}).1

/-- **The late sources**: the template if its main part is borrowed, and the
    override. -/
def lateSources : List Source :=
  (if o.overrideType.brings .main then [] else (t.map Source.ofTemplate).toList)
    ++ [.ofOverride o]

/-- The steps of a slice. -/
def sliceSteps : Slice → List Step
  | .header => r.layoutSteps context (overrideHeader o t)
  | .main => r.overrideMainSteps context o t
  | .footer => r.layoutSteps context (overrideFooter o t)

/-- **A slice is one walk** over its steps. -/
theorem collects_slice (slice : Slice) :
    Collects (r.slice context o t slice) (r.sliceSteps context o t slice) := by
  have hlayout := r.collects_layoutById context
  have hown := r.collects_overrideMain context o
  rw [Renderer.slice]
  cases slice with
  | header =>
      rw [sliceSteps, overrideHeader]
      cases o.overrideType with
      | full | header => exact hlayout o.headerLayout
      | footer | content =>
          cases t with
          | none => exact collects_nil
          | some t => exact hlayout t.headerLayout
  | main =>
      rw [sliceSteps, overrideMainSteps]
      cases o.overrideType with
      | full | content => exact hown
      | header | footer =>
          cases t with
          | none => exact collects_nil
          | some t => exact r.collects_templateMain context t
  | footer =>
      rw [sliceSteps, overrideFooter]
      cases o.overrideType with
      | full | footer => exact hlayout o.footerLayout
      | header | content =>
          cases t with
          | none => exact collects_nil
          | some t => exact hlayout t.footerLayout

/-- **The steps of an override**: its slices in order, then the late sources. -/
theorem overrideSteps_eq :
    r.overrideSteps context o t =
      [.header, .main, .footer].flatMap (r.sliceSteps context o t)
        ++ (lateSources o t).map fun s => { source := some s } := by
  have hlate : borrowedSteps o t ++ [{ source := some (.ofOverride o) }] =
      (lateSources o t).map fun s => ({ source := some s } : Step) := by
    rw [borrowedSteps, lateSources]
    cases o.overrideType <;> cases t <;> rfl
  rw [overrideSteps, List.append_assoc, hlate]
  simp only [List.flatMap_cons, List.flatMap_nil, List.append_nil, List.append_assoc]
  rfl

/-! ## Sources within the slices -/

/-- Whether only blocks and layouts are visited. -/
def FromParts (steps : List Step) : Prop :=
  ∀ step ∈ steps, ∀ s, step.source = some s → s.kind = .block ∨ s.kind = .layout

theorem FromParts.append {a b : List Step} (ha : FromParts a) (hb : FromParts b) :
    FromParts (a ++ b) :=
  List.forall_mem_append.mpr ⟨ha, hb⟩

theorem FromParts.flatMap {α : Type} {parts : List α} {steps : α → List Step}
    (h : ∀ a, FromParts (steps a)) : FromParts (parts.flatMap steps) := by
  intro step hstep
  obtain ⟨a, -, hmem⟩ := List.mem_flatMap.mp hstep
  exact h a step hmem

/-- Markup alone visits nothing. -/
theorem fromParts_markup (html : String) : FromParts [{ html }] := by
  intro step hstep s hs
  rw [List.mem_singleton.mp hstep] at hs
  cases hs

theorem fromParts_source (html : String) {s : Source} (hs : s.kind = .block ∨ s.kind = .layout) :
    FromParts [{ html, source := some s }] := by
  intro step hstep s' hs'
  rw [List.mem_singleton.mp hstep] at hs'
  obtain rfl := Option.some.inj hs'
  exact hs

theorem fromParts_blockSteps (id : Nat) : FromParts (r.blockSteps context id) := by
  rw [blockSteps]
  split
  · split
    · exact fromParts_source _ (Or.inl rfl)
    · exact List.forall_mem_nil _
  · exact List.forall_mem_nil _

theorem fromParts_layoutSteps (id : Option Nat) : FromParts (r.layoutSteps context id) := by
  rw [layoutSteps]
  split
  · split
    · split
      · exact .flatMap (r.fromParts_blockSteps context)
      · exact fromParts_source _ (Or.inr rfl)
    · exact List.forall_mem_nil _
  · exact List.forall_mem_nil _

/-- A main part visits the blocks of its content list. -/
theorem fromParts_mainSteps (cls : String) (items : List ContentItem) (markup : String) :
    FromParts (mainSteps cls (r.contentSteps context items markup)) := by
  have hitem : ∀ item, FromParts (r.itemSteps context item) := by
    intro item
    cases item with
    | block id => exact r.fromParts_blockSteps context id
    | markup text => exact fromParts_markup _
  exact (fromParts_markup _).append
    (((FromParts.flatMap hitem).append (fromParts_markup _)).append (fromParts_markup _))

theorem fromParts_sliceSteps (slice : Slice) : FromParts (r.sliceSteps context o t slice) := by
  cases slice with
  | header => exact r.fromParts_layoutSteps context _
  | footer => exact r.fromParts_layoutSteps context _
  | main =>
      rw [sliceSteps, overrideMainSteps]
      cases o.overrideType with
      | full | content => exact r.fromParts_mainSteps context _ _ _
      | header | footer =>
          cases t with
          | none => exact List.forall_mem_nil _
          | some t => exact r.fromParts_mainSteps context _ _ _

/-! ## What cannot be seen -/

variable {t t' : Option Template}

/-- What a change to the template leaves alone cannot tell the templates that it
    makes equal. -/
private theorem steps_eq_of_map {change : Template → Template}
    (hchange : ∀ t,
      r.overrideSteps context o (some t) = r.overrideSteps context o (some (change t)))
    (h : t.map change = t'.map change) :
    r.overrideSteps context o t = r.overrideSteps context o t' := by
  cases t with
  | none =>
      cases t' with
      | none => rfl
      | some t' => cases h
  | some t =>
      cases t' with
      | none => cases h
      | some t' => rw [hchange t, hchange t', Option.some.inj h]

/-- **Templates that agree on what is borrowed** give the same steps. -/
theorem overrideSteps_of_alike (alike : o.overrideType.Alike t t') :
    r.overrideSteps context o t = r.overrideSteps context o t' := by
  cases htype : o.overrideType with
  | full =>
      simp only [overrideSteps, overrideHeader, overrideMainSteps, overrideFooter, borrowedSteps,
        htype]
  | content =>
      rw [htype] at alike
      obtain ⟨hheader, hfooter⟩ := alike
      simp only [overrideSteps, overrideHeader, overrideMainSteps, overrideFooter, borrowedSteps,
        htype, hheader, hfooter]
  | header =>
      rw [htype] at alike
      refine r.steps_eq_of_map context o (fun t => ?_) alike
      simp only [overrideSteps, overrideHeader, overrideMainSteps, overrideFooter, borrowedSteps,
        htype]
      rfl
  | footer =>
      rw [htype] at alike
      refine r.steps_eq_of_map context o (fun t => ?_) alike
      simp only [overrideSteps, overrideHeader, overrideMainSteps, overrideFooter, borrowedSteps,
        htype]
      rfl

end Slices

/-! ## The page -/

/-- **What the late sources leave**: after assets that only blocks and layouts
    have handed in, each has its stylesheet and its script once, at the end. -/
theorem takeAll_lateSources {assets : Assets} (inStep : assets.styles.InStep)
    (hparts : ∀ e ∈ assets.styles.entries, e.kind = .block ∨ e.kind = .layout) (o : Override)
    (t : Option Template) :
    let late := lateSources o t
    (assets.takeAll late).styles.entries =
        assets.styles.entries ++ (late.filter Source.hasStyle).map Source.styleEntry ∧
      (assets.takeAll late).scripts.entries =
        assets.scripts.entries ++ (late.filter Source.hasScript).map Source.scriptEntry := by
  intro late
  have hkinds : late.Pairwise fun s s' => s.kind ≠ s'.kind := by
    show (lateSources o t).Pairwise _
    rw [lateSources]
    cases o.overrideType.brings .main <;> cases t <;> simp [Source.ofTemplate, Source.ofOverride]
  have hlate : ∀ s ∈ late, s.kind ≠ .block ∧ s.kind ≠ .layout := by
    intro s hs
    rcases List.mem_append.mp (show s ∈ lateSources o t from hs) with hs | hs
    · split at hs
      · cases hs
      · obtain ⟨t, -, rfl⟩ := Option.map_eq_some_iff.mp (Option.mem_toList.mp hs)
        exact ⟨by simp [Source.ofTemplate], by simp [Source.ofTemplate]⟩
    · rw [List.mem_singleton.mp hs]
      exact ⟨by simp [Source.ofOverride], by simp [Source.ofOverride]⟩
  refine ⟨?_, Assets.scripts_takeAll assets late⟩
  rw [Assets.styles_takeAll, firstOfEach_of_pairwise, List.filter_eq_self.mpr]
  · intro e he
    obtain ⟨s, hs, rfl⟩ := List.mem_map.mp he
    obtain ⟨hblock, hlayout⟩ := hlate s (List.mem_filter.mp hs).1
    rw [Bool.not_eq_true', ← Bool.not_eq_true, inStep.contains_iff]
    rintro ⟨d, hd, hkind, -⟩
    rcases hparts d hd with h | h
    · exact hblock (hkind.symm.trans h)
    · exact hlayout (hkind.symm.trans h)
  · exact List.pairwise_map.mpr ((hkinds.filter _).imp fun hne hsame => hne hsame.1)

/-- Sources without markup. -/
theorem htmlOf_sources (sources : List Source) :
    htmlOf (sources.map fun s => { source := some s }) = "" := by
  induction sources with
  | nil => rfl
  | cons s sources ih => rw [List.map_cons, htmlOf_cons, ih, String.append_empty]

theorem visitsOf_sources (sources : List Source) :
    visitsOf (sources.map fun s => { source := some s }) = sources := by
  rw [visitsOf, List.filterMap_map]
  exact List.filterMap_some

/-- Steps that visit blocks and layouts collect from these only. -/
theorem FromParts.takeAll {steps : List Step} (h : FromParts steps) :
    let collected := Assets.takeAll {} (visitsOf steps)
    (∀ e ∈ collected.styles.entries, e.kind = .block ∨ e.kind = .layout) ∧
      ∀ e ∈ collected.scripts.entries, e.kind = .block ∨ e.kind = .layout := by
  have hvisits : ∀ s ∈ visitsOf steps, s.kind = .block ∨ s.kind = .layout := by
    intro s hs
    obtain ⟨step, hstep, hsource⟩ := List.mem_filterMap.mp hs
    exact h step hstep s hsource
  rw [Assets.takeAll_empty]
  constructor
  · intro e he
    obtain ⟨s, hs, rfl⟩ := List.mem_map.mp (mem_of_mem_firstOfEach he)
    exact hvisits s (List.mem_filter.mp hs).1
  · intro e he
    obtain ⟨s, hs, rfl⟩ := List.mem_map.mp he
    exact hvisits s (List.mem_filter.mp hs).1

/-- **The page from an override is its slices**, own and borrowed, and nothing
    else of the template can be seen.  The assets of the template come along
    with its main part only, and those of the override come last. -/
theorem override_slices (r : Renderer) (context : Context) (o : Override) (t : Option Template) :
    let page := (r.override context o t).run {}
    let slices := (inOrder (r.slice context o t) [.header, .main, .footer]).run {}
    let text := r.sliceText context o t
    let late := lateSources o t
    page.1 = text .header ++ text .main ++ text .footer ∧
      (∀ t', o.overrideType.Alike t t' → (r.override context o t').run {} = page) ∧
      page.2.styles.entries =
        slices.2.styles.entries ++ (late.filter Source.hasStyle).map Source.styleEntry ∧
      page.2.scripts.entries =
        slices.2.scripts.entries ++ (late.filter Source.hasScript).map Source.scriptEntry ∧
      (∀ e ∈ slices.2.styles.entries, e.kind = .block ∨ e.kind = .layout) ∧
      ∀ e ∈ slices.2.scripts.entries, e.kind = .block ∨ e.kind = .layout := by
  intro page slices text late
  have hpage : ∀ t, (r.override context o t).run {} = _ := fun t =>
    r.collects_override context o t {}
  have hslices : slices = _ :=
    collects_inOrder (r.collects_slice context o t) [.header, .main, .footer] {}
  have hlate : page.2 = slices.2.takeAll late := by
    rw [hslices, ← Assets.takeAll_append, ← visitsOf_sources late, ← visitsOf_append,
      ← overrideSteps_eq]
    exact congrArg Prod.snd (hpage t)
  have hparts : FromParts ([.header, .main, .footer].flatMap (r.sliceSteps context o t)) :=
    .flatMap (r.fromParts_sliceSteps context o t)
  obtain ⟨hstyles, hscripts⟩ := hparts.takeAll
  obtain ⟨hlateStyles, hlateScripts⟩ := takeAll_lateSources
    (Assets.inStep_takeAll Styles.inStep_empty _) hstyles o t
  have htext : ∀ slice, text slice = htmlOf (r.sliceSteps context o t slice) := fun slice =>
    congrArg Prod.fst (r.collects_slice context o t slice {})
  refine ⟨?_, fun t' alike => ?_, ?_, ?_, ?_, ?_⟩
  · show ((r.override context o t).run {}).1 = _
    rw [hpage, overrideSteps_eq, htmlOf_append, htmlOf_sources, String.append_empty]
    simp only [List.flatMap_cons, List.flatMap_nil, List.append_nil, htmlOf_append, htext,
      String.append_assoc]
  · show _ = (r.override context o t).run {}
    rw [hpage, hpage, r.overrideSteps_of_alike context o alike]
  · rw [hlate, hslices]
    exact hlateStyles
  · rw [hlate, hslices]
    exact hlateScripts
  · rw [hslices]
    exact hstyles
  · rw [hslices]
    exact hscripts

/-- An override with a header of its own does not show which header its template
    has, but its main part and its stylesheet. -/
theorem override_slices_header :
    let block : Block := { id := 3, html := "c", css := "d\x7be:f\x7d" }
    let layout : Layout := { id := 1, usesBlocks := false, customHtml := "<i>a</i>" }
    let store := (({} : Store).insertBlock block).insertLayout layout
    let r : Renderer := { store }
    let context : Context := { request := { kind := .home, now := default } }
    let o : Override :=
      { postId := 5, overrideType := .header, headerLayout := some 1, customHtml := "own"
        customCss := "b\x7b\x7d" }
    let t : Template :=
      { id := 2, headerLayout := some 7, content := [.block 3, .markup "g"], customHtml := "h"
        customCss := "a\x7b\x7d" }
    let t' : Template := { t with headerLayout := none }
    let page := (r.override context o (some t)).run {}
    o.overrideType.Alike (some t) (some t') ∧
      (r.override context o (some t')).run {} = page ∧
      page.1 = "<i>a</i><main class=\"codesite-content codesite-template-2\">" ++
        "<div class=\"codesite-block codesite-block-3\">c</div>gh</main>" ∧
      page.2.styles.entries =
        [⟨.block, 3, ".codesite-block-3 d\x7be:f\x7d"⟩, ⟨.template, 2, "a\x7b\x7d"⟩,
          ⟨.override, 5, "b\x7b\x7d"⟩] := by
  intro block layout store r context o t t' page
  obtain ⟨htext, hsame, hstyles, -⟩ := r.override_slices context o (some t)
  exact ⟨rfl, hsame (some t') rfl, htext.trans (by decide +kernel),
    hstyles.trans (by decide +kernel)⟩

end Renderer

end PageLoom
