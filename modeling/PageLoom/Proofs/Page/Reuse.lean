import PageLoom.Proofs.Page.Visits

/-!
# Reuse — assets that serve one request after another

    Assets may see any calls: requests, blocks, layouts, templates and
    overrides rendered on their own, and resets, each from whatever renderer.
    A call decides first what it starts from (`Call.start`) and then goes
    through steps that do not depend on the assets (`Call.exists_steps`).  So
    its markup is the same with any assets (`Call.markup_eq`), and once the
    assets have served they stay so until they are reset
    (`isUsed_afterCalls`).

    A request starts from nothing if the assets are new or have served
    (`Assets.Ready.forRequest`).  What rendering leaves is then what it leaves
    in new assets (`Renderer.request_of_ready`).
-/

namespace PageLoom

/-- **A call** that assets may see. -/
inductive Call
  | request (r : Renderer) (request : Request)
  | block (r : Renderer) (context : Context) (b : Block)
  | layout (r : Renderer) (context : Context) (l : Layout)
  | template (r : Renderer) (context : Context) (t : Template)
  | override (r : Renderer) (context : Context) (o : Override) (t : Option Template)
  | reset

namespace Call

/-- What a call renders. -/
def rendering : Call → Rendering String
  | .request r asked => r.request asked
  | .block r context b => r.block context b
  | .layout r context l => r.layout context l
  | .template r context t => r.template context t
  | .override r context o t => r.override context o t
  | .reset => do
      set ({} : Assets)
      return ""

/-- The assets that a call starts from. -/
def start (assets : Assets) : Call → Assets
  | .request _ _ => assets.forRequest
  | .reset => {}
  | _ => assets

/-- **Every call is one walk** over steps of its own. -/
theorem exists_steps (call : Call) :
    ∃ steps, ∀ assets, call.rendering.run assets =
      (htmlOf steps, (call.start assets).takeAll (visitsOf steps)) := by
  cases call with
  | request r asked => exact ⟨_, r.run_request_from asked⟩
  | block r context b => exact ⟨_, r.collects_block context b⟩
  | layout r context l => exact ⟨_, r.collects_layout context l⟩
  | template r context t => exact ⟨_, r.collects_template context t⟩
  | override r context o t => exact ⟨_, r.collects_override context o t⟩
  | reset => exact ⟨[], fun _ => rfl⟩

/-- **Markup never depends on the assets.** -/
theorem markup_eq (call : Call) (a b : Assets) :
    (call.rendering.run a).1 = (call.rendering.run b).1 := by
  obtain ⟨steps, hsteps⟩ := call.exists_steps
  rw [hsteps, hsteps]

theorem isUsed_run {call : Call} (hreset : call ≠ reset) {assets : Assets}
    (used : assets.isUsed = true) : (call.rendering.run assets).2.isUsed = true := by
  obtain ⟨steps, hsteps⟩ := call.exists_steps
  have hstart : (call.start assets).isUsed = true := by
    cases call with
    | request r asked =>
        show assets.forRequest.isUsed = true
        rw [Assets.forRequest, if_pos used]
    | reset => exact absurd rfl hreset
    | _ => exact used
  rw [hsteps, Assets.isUsed_takeAll]
  exact hstart

end Call

namespace Assets

/-- The assets after a list of calls. -/
def afterCalls (assets : Assets) (calls : List Call) : Assets :=
  calls.foldl (fun assets call => (call.rendering.run assets).2) assets

/-- **Assets ready for a request**: new ones, or ones that have served a request
    and have not been reset since, whatever else they have seen. -/
def Ready (assets : Assets) : Prop :=
  assets = {} ∨
    ∃ (before : Assets) (r : Renderer) (request : Request) (calls : List Call),
      Call.reset ∉ calls ∧ assets = ((r.request request).run before).2.afterCalls calls

theorem isUsed_forRequest (assets : Assets) : assets.forRequest.isUsed = true := by
  cases hused : assets.isUsed with
  | true => rw [forRequest, if_pos hused]
  | false => rw [forRequest, if_neg (by rw [hused]; exact Bool.false_ne_true)]

/-- A request leaves assets that have served. -/
theorem isUsed_request (r : Renderer) (request : Request) (assets : Assets) :
    ((r.request request).run assets).2.isUsed = true := by
  rw [r.run_request_from, isUsed_takeAll]
  exact assets.isUsed_forRequest

/-- Only a reset makes them forget it. -/
theorem isUsed_afterCalls {calls : List Call} (hreset : Call.reset ∉ calls) {assets : Assets}
    (used : assets.isUsed = true) : (assets.afterCalls calls).isUsed = true := by
  induction calls generalizing assets with
  | nil => exact used
  | cons call calls ih =>
      obtain ⟨hcall, hcalls⟩ := not_or.mp (hreset ∘ List.mem_cons.mpr)
      exact ih hcalls (Call.isUsed_run (Ne.symm hcall) used)

/-- **A request starts from nothing** with assets that are ready for it. -/
theorem Ready.forRequest {assets : Assets} (ready : assets.Ready) :
    assets.forRequest = { isUsed := true } := by
  rcases ready with rfl | ⟨before, r, request, calls, hreset, rfl⟩
  · rfl
  · have used := isUsed_afterCalls hreset (isUsed_request r request before)
    rw [Assets.forRequest, if_pos used]

end Assets

namespace Renderer

/-- **Nothing of an earlier request shows.**  With assets that are ready a
    request renders and collects what it does with new ones, and leaves assets
    that have served; and no call at all renders other markup with other
    assets. -/
theorem request_of_ready (r : Renderer) (request : Request) {assets : Assets}
    (ready : assets.Ready) :
    let reused := (r.request request).run assets
    let new := (r.request request).run {}
    reused.1 = new.1 ∧ reused.2.styles.entries = new.2.styles.entries ∧
      reused.2.scripts.entries = new.2.scripts.entries ∧
      r.headCss reused.2 = r.headCss new.2 ∧ r.footJs reused.2 = r.footJs new.2 ∧
      reused.2.isUsed = true ∧
      ∀ (call : Call) (a b : Assets), (call.rendering.run a).1 = (call.rendering.run b).1 := by
  have hsame : (r.request request).run assets = (r.request request).run {} := by
    rw [r.run_request_from, r.run_request, ready.forRequest]
  have hused := Assets.isUsed_request r request {}
  rw [hsame]
  exact ⟨rfl, rfl, rfl, rfl, rfl, hused, Call.markup_eq⟩

/-- A block rendered on its own after a request leaves a stylesheet and a script
    behind, which the next request does not show. -/
theorem request_of_ready_stray :
    let hero : Block :=
      { id := 1, html := "<h1>x</h1>", css := "h1\x7btop:0\x7d", styleScope := .global }
    let stray : Block := { id := 2, html := "<b>y</b>", css := "b\x7btop:0\x7d", js := "go()" }
    let home : Template := { id := 1, templateType := "home", content := [.block 1] }
    let r : Renderer := { store := (Store.insertBlock {} hero).insertTemplate home }
    let request : Request := { kind := .home, now := default }
    let assets := ((r.request request).run {}).2.afterCalls [.block r { request } stray]
    let reused := (r.request request).run assets
    assets.Ready ∧ assets.scripts.entries = [⟨.block, 2, "", "go()"⟩] ∧
      reused.1 = "<main class=\"codesite-content codesite-template-1\"><h1>x</h1></main>" ∧
      reused.2.styles.entries = [⟨.block, 1, "h1\x7btop:0\x7d"⟩] ∧
      reused.2.scripts.entries = [] := by
  intro hero stray home r request assets reused
  have ready : assets.Ready := .inr ⟨{}, r, request, _, by simp, rfl⟩
  obtain ⟨hhtml, hstyles, hscripts, -⟩ := r.request_of_ready request ready
  exact ⟨ready, by decide +kernel, hhtml.trans (by decide +kernel),
    hstyles.trans (by decide +kernel), hscripts.trans (by decide +kernel)⟩

end Renderer

end PageLoom
