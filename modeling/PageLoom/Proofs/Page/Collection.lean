import PageLoom.Site.Store
import PageLoom.Asset.Collection

/-!
# Collection — what a list of sources leaves in the assets

    A source hands in a stylesheet and a script.  Handing in a list of
    sources one after the other keeps the first stylesheet of each source
    that is not blank, in the order of these first ones (`firstOfEach`), and
    every script that is not blank (`Assets.takeAll_empty`).  What
    `firstOfEach` keeps has no source twice (`pairwise_firstOfEach`) and
    leaves out no source (`exists_mem_firstOfEach`).  The keys of a collection
    stay in step with its entries (`Styles.InStep`).
-/

namespace PageLoom

/-- **A source of assets**: what an entity brings along when it is rendered. -/
structure Source where
  kind : SourceKind
  id : Nat
  name : String
  css : String
  js : String
  /-- the class that the stylesheet is confined to, if it is -/
  scope : Option String

namespace Source

/-- The source that a block is: confined to the block's own class exactly when
    the block is scoped. -/
def ofBlock (b : Block) : Source where
  kind := .block
  id := b.id
  name := b.name
  css := b.css
  js := b.js
  scope := if b.styleScope = .scoped then some ("codesite-block-" ++ toString b.id) else none

/-- The source that a layout with markup of its own is. -/
def ofLayout (l : Layout) : Source :=
  ⟨.layout, l.id, l.name, l.customCss, l.customJs, none⟩

/-- The source that a template is. -/
def ofTemplate (t : Template) : Source :=
  ⟨.template, t.id, t.name, t.customCss, t.customJs, none⟩

/-- The source that an override is. -/
def ofOverride (o : Override) : Source :=
  ⟨.override, o.postId, "Post " ++ toString o.postId, o.customCss, o.customJs, none⟩

/-- The stylesheet of a source as it is kept. -/
def styleEntry (s : Source) : StyleEntry where
  kind := s.kind
  id := s.id
  css :=
    match s.scope with
    | some cls => Css.scope s.css cls
    | none => s.css

/-- The script of a source as it is kept. -/
def scriptEntry (s : Source) : ScriptEntry :=
  ⟨s.kind, s.id, s.name, s.js⟩

/-- The sources with a stylesheet that is not blank. -/
def hasStyle (s : Source) : Bool :=
  !Text.isBlankText s.css

/-- The sources with a script that is not blank. -/
def hasScript (s : Source) : Bool :=
  !Text.isBlankText s.js

end Source

/-! ## The first of each -/

/-- Whether two stylesheets come from one source. -/
def StyleEntry.sameSource (d e : StyleEntry) : Bool :=
  d.kind == e.kind && d.id == e.id

/-- **The first stylesheet of each source**, in order. -/
def firstOfEach : List StyleEntry → List StyleEntry
  | [] => []
  | e :: es => e :: (firstOfEach es).filter fun d => !d.sameSource e

theorem StyleEntry.sameSource_iff {d e : StyleEntry} :
    d.sameSource e = true ↔ d.kind = e.kind ∧ d.id = e.id := by
  rw [sameSource, Bool.and_eq_true, beq_iff_eq, beq_iff_eq]

/-- Nothing is made up. -/
theorem mem_of_mem_firstOfEach {d : StyleEntry} {es : List StyleEntry}
    (h : d ∈ firstOfEach es) : d ∈ es := by
  induction es with
  | nil => exact h
  | cons e es ih =>
      rcases List.mem_cons.mp h with rfl | h
      · exact List.mem_cons_self
      · exact List.mem_cons_of_mem _ (ih (List.mem_filter.mp h).1)

/-- No source has two stylesheets. -/
theorem pairwise_firstOfEach (es : List StyleEntry) :
    (firstOfEach es).Pairwise fun d e => ¬(d.kind = e.kind ∧ d.id = e.id) := by
  induction es with
  | nil => exact List.Pairwise.nil
  | cons e es ih =>
      refine List.pairwise_cons.mpr ⟨fun d hd hsame => ?_, ih.filter _⟩
      have hnot := (List.mem_filter.mp hd).2
      rw [StyleEntry.sameSource_iff.mpr ⟨hsame.1.symm, hsame.2.symm⟩] at hnot
      cases hnot

/-- Every source has one. -/
theorem exists_mem_firstOfEach {d : StyleEntry} {es : List StyleEntry} (h : d ∈ es) :
    ∃ e ∈ firstOfEach es, e.kind = d.kind ∧ e.id = d.id := by
  induction es with
  | nil => cases h
  | cons e es ih =>
      by_cases hsame : d.sameSource e = true
      · obtain ⟨hkind, hid⟩ := StyleEntry.sameSource_iff.mp hsame
        exact ⟨e, List.mem_cons_self, hkind.symm, hid.symm⟩
      · rcases List.mem_cons.mp h with rfl | h
        · exact absurd (StyleEntry.sameSource_iff.mpr ⟨rfl, rfl⟩) hsame
        · obtain ⟨f, hf, hkind, hid⟩ := ih h
          have hother : f.sameSource e = d.sameSource e := by
            rw [StyleEntry.sameSource, StyleEntry.sameSource, hkind, hid]
          refine ⟨f, List.mem_cons_of_mem _ (List.mem_filter.mpr ⟨hf, ?_⟩), hkind, hid⟩
          rw [hother, Bool.not_eq_true']
          exact Bool.not_eq_true _ ▸ hsame

/-- Stylesheets of sources that are all different are all kept. -/
theorem firstOfEach_of_pairwise {es : List StyleEntry}
    (h : es.Pairwise fun d e => ¬(d.kind = e.kind ∧ d.id = e.id)) : firstOfEach es = es := by
  induction es with
  | nil => rfl
  | cons e es ih =>
      obtain ⟨hhead, htail⟩ := List.pairwise_cons.mp h
      rw [firstOfEach, ih htail, List.filter_eq_self.mpr]
      intro d hd
      rw [Bool.not_eq_true', ← Bool.not_eq_true, StyleEntry.sameSource_iff]
      exact fun hsame => hhead d hd ⟨hsame.1.symm, hsame.2.symm⟩

/-! ## Keys in step with entries -/

/-- The source that a stylesheet comes from. -/
def StyleEntry.source (e : StyleEntry) : SourceKind × Nat :=
  (e.kind, e.id)

namespace Styles

/-- **Keys in step with entries**: they are the sources of the entries, the last
    one first. -/
def InStep (styles : Styles) : Prop :=
  styles.keys = (styles.entries.map StyleEntry.source).reverse

theorem inStep_empty : InStep {} := rfl

/-- **What is accepted** is put at the end. -/
theorem add_of_accepts {styles : Styles} {css : String} {kind : SourceKind} {id : Nat}
    (h : styles.accepts css kind id = true) (scope : Option String) :
    styles.add css kind id scope =
      (true,
        { entries := styles.entries ++ [⟨kind, id, confined scope css⟩]
          keys := (kind, id) :: styles.keys }) :=
  if_pos h

/-- **What is not accepted** changes nothing. -/
theorem add_of_not_accepts {styles : Styles} {css : String} {kind : SourceKind} {id : Nat}
    (h : styles.accepts css kind id = false) (scope : Option String) :
    styles.add css kind id scope = (false, styles) :=
  if_neg (Bool.not_eq_true _ ▸ h)

theorem InStep.add {styles : Styles} (inStep : styles.InStep) (css : String) (kind : SourceKind)
    (id : Nat) (scope : Option String) : (styles.add css kind id scope).2.InStep := by
  cases haccepts : styles.accepts css kind id with
  | true =>
      rw [add_of_accepts haccepts]
      show (kind, id) :: styles.keys = _
      rw [show styles.keys = _ from inStep, List.map_append, List.reverse_append]
      rfl
  | false =>
      rw [add_of_not_accepts haccepts]
      exact inStep

/-- A block hands in under the scope that its source says. -/
theorem addBlock_eq (styles : Styles) (b : Block) :
    styles.addBlock b = styles.add b.css .block b.id (Source.ofBlock b).scope := by
  have hscope : scopeOf b = (Source.ofBlock b).scope := by
    rw [scopeOf, Source.ofBlock]
    cases b.styleScope <;> rfl
  rw [addBlock, hscope]

/-- In step, a source has handed in exactly when an entry comes from it. -/
theorem InStep.contains_iff {styles : Styles} (inStep : styles.InStep) {kind : SourceKind}
    {id : Nat} :
    styles.contains kind id = true ↔ ∃ e ∈ styles.entries, e.kind = kind ∧ e.id = id := by
  rw [contains, List.contains_iff_mem, show styles.keys = _ from inStep, List.mem_reverse, List.mem_map]
  simp only [StyleEntry.source, Prod.mk.injEq]

end Styles

/-! ## Handing in -/

namespace Assets

/-- The assets with those of a source. -/
def take (assets : Assets) (s : Source) : Assets :=
  { assets with
    styles := assets.styles.add s.css s.kind s.id s.scope
    scripts := assets.scripts.push s.kind s.id s.name s.js }

/-- The assets with those of a list of sources. -/
def takeAll (assets : Assets) (sources : List Source) : Assets :=
  sources.foldl take assets

theorem takeAll_append (assets : Assets) (a b : List Source) :
    assets.takeAll (a ++ b) = (assets.takeAll a).takeAll b :=
  List.foldl_append

/-- A block hands in what its source says. -/
theorem addBlock_eq (assets : Assets) (b : Block) :
    assets.addBlock b = assets.take (.ofBlock b) := by
  rw [addBlock, Styles.addBlock_eq]
  rfl

/-- Handing in keeps whether the assets have served. -/
theorem isUsed_takeAll (assets : Assets) (sources : List Source) :
    (assets.takeAll sources).isUsed = assets.isUsed := by
  induction sources generalizing assets with
  | nil => rfl
  | cons s sources ih => exact ih (assets.take s)

/-- **Scripts** are kept in order, repeats included. -/
theorem scripts_takeAll (assets : Assets) (sources : List Source) :
    (assets.takeAll sources).scripts.entries =
      assets.scripts.entries ++ (sources.filter Source.hasScript).map Source.scriptEntry := by
  induction sources generalizing assets with
  | nil => exact (List.append_nil _).symm
  | cons s sources ih =>
      show ((assets.take s).takeAll sources).scripts.entries = _
      rw [ih, take, Scripts.push]
      cases hblank : Text.isBlankText s.js with
      | true =>
          have hnone : ¬s.hasScript = true := by
            rw [Source.hasScript, hblank]
            exact Bool.false_ne_true
          rw [if_pos rfl, List.filter_cons_of_neg hnone]
      | false =>
          have hsome : s.hasScript = true := by
            rw [Source.hasScript, hblank]
            rfl
          rw [if_neg Bool.false_ne_true, List.filter_cons_of_pos hsome, List.map_cons,
            List.append_assoc]
          rfl

/-- A blank stylesheet, or one of a source that has handed in another, changes
    nothing. -/
theorem styles_take_of_not {assets : Assets} {s : Source}
    (h : s.hasStyle = false ∨ assets.styles.contains s.kind s.id = true) :
    (assets.take s).styles = assets.styles := by
  have hnot : assets.styles.accepts s.css s.kind s.id = false := by
    refine Bool.and_eq_false_iff.mpr (h.imp_right fun hold => ?_)
    rw [hold]
    rfl
  rw [take, Styles.add_of_not_accepts hnot]

/-- The first stylesheet of a source is added at the end. -/
theorem styles_take_of {assets : Assets} {s : Source} (hstyle : s.hasStyle = true)
    (hnew : assets.styles.contains s.kind s.id = false) :
    (assets.take s).styles =
      { entries := assets.styles.entries ++ [s.styleEntry]
        keys := (s.kind, s.id) :: assets.styles.keys } := by
  have haccepts : assets.styles.accepts s.css s.kind s.id = true := by
    refine Bool.and_eq_true_iff.mpr ⟨hstyle, ?_⟩
    rw [hnew]
    rfl
  rw [take, Styles.add_of_accepts haccepts]
  rfl

/-- **Stylesheets**: the first of each source that had none. -/
theorem styles_takeAll (assets : Assets) (sources : List Source) :
    (assets.takeAll sources).styles.entries =
      assets.styles.entries ++
        (firstOfEach ((sources.filter Source.hasStyle).map Source.styleEntry)).filter
          fun e => !assets.styles.contains e.kind e.id := by
  induction sources generalizing assets with
  | nil => exact (List.append_nil _).symm
  | cons s sources ih =>
      show ((assets.take s).takeAll sources).styles.entries = _
      rw [ih]
      cases hstyle : s.hasStyle with
      | false =>
          rw [styles_take_of_not (Or.inl hstyle),
            List.filter_cons_of_neg (by rw [hstyle]; exact Bool.false_ne_true)]
      | true =>
          rw [List.filter_cons_of_pos hstyle, List.map_cons, firstOfEach]
          have hkey : s.styleEntry.kind = s.kind ∧ s.styleEntry.id = s.id := ⟨rfl, rfl⟩
          cases hold : assets.styles.contains s.kind s.id with
          | true =>
              -- whatever comes from this source is left out already
              rw [styles_take_of_not (Or.inr hold), List.filter_cons_of_neg (by simp [hkey, hold]),
                List.filter_filter]
              refine congrArg _ (List.filter_congr fun d _ => ?_)
              cases hsame : d.sameSource s.styleEntry with
              | false => exact (Bool.and_true _).symm
              | true =>
                  obtain ⟨hkind, hid⟩ := StyleEntry.sameSource_iff.mp hsame
                  rw [hkind, hid, hkey.1, hkey.2, hold]
                  rfl
          | false =>
              -- from now on this source counts as one that has handed in
              rw [styles_take_of hstyle hold, List.filter_cons_of_pos (by simp [hkey, hold]),
                List.filter_filter, List.append_assoc, List.singleton_append]
              refine congrArg (assets.styles.entries ++ s.styleEntry :: ·)
                (List.filter_congr fun d _ => ?_)
              have hcontains :
                  ((s.kind, s.id) :: assets.styles.keys).contains (d.kind, d.id) =
                    (d.sameSource s.styleEntry || assets.styles.contains d.kind d.id) :=
                List.contains_cons
              rw [Styles.contains, hcontains, Bool.not_or, Bool.and_comm]

/-- Handing in keeps the keys in step with the entries. -/
theorem inStep_takeAll {assets : Assets} (inStep : assets.styles.InStep)
    (sources : List Source) : (assets.takeAll sources).styles.InStep := by
  induction sources generalizing assets with
  | nil => exact inStep
  | cons s sources ih => exact ih (inStep.add s.css s.kind s.id s.scope)

/-- **What a list of sources leaves** in assets that were empty. -/
theorem takeAll_empty (isUsed : Bool) (sources : List Source) :
    let kept := firstOfEach ((sources.filter Source.hasStyle).map Source.styleEntry)
    takeAll { isUsed } sources =
      { styles := ⟨kept, (kept.map StyleEntry.source).reverse⟩
        scripts := ⟨(sources.filter Source.hasScript).map Source.scriptEntry⟩
        isUsed } := by
  intro kept
  have hstyles := styles_takeAll { isUsed } sources
  have hkeys : (takeAll { isUsed } sources).styles.InStep :=
    inStep_takeAll Styles.inStep_empty sources
  have hscripts := scripts_takeAll { isUsed } sources
  have hused := isUsed_takeAll { isUsed } sources
  have hnone : ∀ e : StyleEntry, (!Styles.contains {} e.kind e.id) = true := fun _ => rfl
  rw [List.filter_eq_self.mpr fun e _ => hnone e] at hstyles
  generalize takeAll { isUsed } sources = assets at hstyles hkeys hscripts hused
  obtain ⟨⟨styles, keys⟩, ⟨scripts⟩, used⟩ := assets
  obtain rfl : styles = kept := hstyles
  obtain rfl : keys = (kept.map StyleEntry.source).reverse := hkeys
  obtain rfl : scripts = _ := hscripts
  obtain rfl : used = isUsed := hused
  rfl

end Assets

end PageLoom
