import Mathlib.Data.List.DropRight
import PageLoom.Proofs.Page.Collection
import PageLoom.Proofs.Text.Letters
import PageLoom.Text.Digits

/-!
# Collected stylesheets — what any run of calls leaves

    A collection sees additions, blocks that hand theirs in and clearings, in
    whatever order.  Only the calls since the last clearing count
    (`sinceClear`): the collection holds what their sources leave in a new one
    (`afterCalls_eq`), which is the first stylesheet of each source that is not
    blank (`entries_afterCalls`).  The calls answer truly (`run_answers`).

    Written out, every entry is an element of its own.  A key is ASCII
    (`ascii_key`), its slug is the key (`slug_key`), and it tells the kind and
    the identifier (`key_inj`), so no two elements share a name and none has
    the name of the global one (`nodup_elementIds`).
-/

namespace PageLoom

open Text

/-! ## Names of elements -/

/-- Characters that a slug keeps. -/
def KeptBySlug (c : Char) : Prop :=
  (c.isAlphanum || c == '_') = true ∧ c.toLower = c

theorem foldl_slugStep {cs : List Char} (hcs : ∀ c ∈ cs, KeptBySlug c) (read : List Char) :
    cs.foldl slugStep read = cs.reverse ++ read := by
  induction cs generalizing read with
  | nil => rfl
  | cons c cs ih =>
      obtain ⟨hc, hcs⟩ := List.forall_mem_cons.mp hcs
      have hstep : slugStep read c = c :: read := if_pos hc.1
      rw [List.foldl_cons, hstep, ih hcs, List.reverse_cons, List.append_assoc]
      rfl

/-- A slug keeps two words joined by a hyphen. -/
theorem slug_joined {a b : List Char} (ha : ∀ c ∈ a, KeptBySlug c) (hb : ∀ c ∈ b, KeptBySlug c)
    (hane : a ≠ []) (hbne : b ≠ []) :
    slug (String.ofList (a ++ '-' :: b)) = String.ofList (a ++ '-' :: b) := by
  have hlower : lowerAscii (a ++ '-' :: b) = a ++ '-' :: b := by
    rw [lowerAscii, List.map_append, List.map_cons, List.map_congr_left fun c hc => (ha c hc).2,
      List.map_congr_left fun c hc => (hb c hc).2, List.map_id', List.map_id']
    rfl
  -- a word ends in a character that is no hyphen
  have hlast : ∀ {w : List Char}, (∀ c ∈ w, KeptBySlug c) → w ≠ [] →
      ∃ c cs, w.reverse = c :: cs ∧ c ≠ '-' := by
    intro w hw hne
    obtain ⟨c, cs, hrev⟩ := List.exists_cons_of_ne_nil (List.reverse_ne_nil_iff.mpr hne)
    refine ⟨c, cs, hrev, ?_⟩
    rintro rfl
    have hmem : '-' ∈ w := List.mem_reverse.mp (hrev ▸ List.mem_cons_self)
    exact absurd (hw _ hmem).1 (by decide)
  obtain ⟨x, xs, hx, hxne⟩ := hlast ha hane
  obtain ⟨y, ys, hy, hyne⟩ := hlast hb hbne
  have hhyphen : slugStep a.reverse '-' = '-' :: a.reverse := by
    have hstart : (a.reverse.isEmpty || a.reverse.head? == some '-') = false := by
      rw [hx]
      simp [hxne]
    rw [slugStep, if_neg (by decide), hstart, if_neg Bool.false_ne_true]
  have hfold : (a ++ '-' :: b).foldl slugStep [] = b.reverse ++ '-' :: a.reverse := by
    rw [List.foldl_append, foldl_slugStep ha, List.append_nil, List.foldl_cons, hhyphen,
      foldl_slugStep hb]
  rw [slug, String.toList_ofList, hlower, hfold, hy, List.cons_append,
    List.dropWhile_cons_of_neg (by simpa using hyne), ← List.cons_append, ← hy]
  simp

theorem keptBySlug_of_isDigit {c : Char} (hc : c.isDigit = true) : KeptBySlug c :=
  ⟨by simp [isAlphanum_of_isDigit hc], toLower_of_isDigit hc⟩

namespace StyleEntry

theorem toList_key (e : StyleEntry) :
    e.key = String.ofList (e.kind.name.toList ++ '-' :: Nat.toDigits 10 e.id) := by
  rw [key, Nat.toString_eq_repr, Nat.repr_eq_ofList_toDigits]
  cases e.kind <;> simp [SourceKind.name, ← String.toList_inj]

/-- **The slug of a key** is the key. -/
theorem slug_key (e : StyleEntry) : slug e.key = e.key := by
  rw [toList_key]
  refine slug_joined ?_ ?_ ?_ Nat.toDigits_ne_nil
  · cases e.kind <;> simp [SourceKind.name, KeptBySlug]
  · intro c hc
    exact keptBySlug_of_isDigit (Nat.isDigit_of_mem_toDigits (by decide) (by decide) hc)
  · cases e.kind <;> simp [SourceKind.name]

/-- **A key tells** the kind and the identifier. -/
theorem key_inj {d e : StyleEntry} (h : d.key = e.key) : d.kind = e.kind ∧ d.id = e.id := by
  rw [toList_key, toList_key, String.ofList_inj] at h
  -- the kinds differ in their first letters
  cases hd : d.kind <;> cases he : e.kind <;>
    simp [hd, he, SourceKind.name] at h ⊢ <;> exact toDigits_inj h

/-- **A key is ASCII**, so a slug has nothing to write in other letters. -/
theorem ascii_key (e : StyleEntry) : ∀ c ∈ e.key.toList, c.toNat < 128 := by
  have hname : ∀ c ∈ e.kind.name.toList, c.toNat < 128 := by
    cases e.kind <;> simp [SourceKind.name]
  intro c hc
  rw [toList_key, String.toList_ofList, List.mem_append, List.mem_cons] at hc
  rcases hc with hc | rfl | hc
  · exact hname c hc
  · decide
  · have hdigit := isDigit_iff.mp (Nat.isDigit_of_mem_toDigits (by decide) (by decide) hc)
    omega

theorem elementId_inj {d e : StyleEntry} (h : d.elementId = e.elementId) :
    d.kind = e.kind ∧ d.id = e.id := by
  refine key_inj ?_
  rw [elementId, elementId, slug_key, slug_key] at h
  simpa [← String.toList_inj] using h

/-- No entry takes the name of the global stylesheet. -/
theorem elementId_ne_global (e : StyleEntry) : e.elementId ≠ globalElementId := by
  rw [elementId, slug_key, key, globalElementId]
  intro h
  -- after `codesite-` a key starts with the name of its kind
  cases hkind : e.kind <;> simp [hkind, SourceKind.name, ← String.toList_inj] at h

end StyleEntry

/-! ## Calls -/

namespace Styles

/-- **A call** on a collection of stylesheets. -/
inductive Call
  | add (css : String) (kind : SourceKind) (id : Nat) (scope : Option String)
  | addBlock (block : Block)
  | clear

namespace Call

/-- **Running a call**: what it answers, which a clearing does not, and the
    collection after it. -/
def run (styles : Styles) : Call → Option Bool × Styles
  | .add css kind id scope =>
      let (added, styles) := styles.add css kind id scope
      (some added, styles)
  | .addBlock block =>
      let (added, styles) := styles.addBlock block
      (some added, styles)
  | .clear => (none, styles.clear)

/-- The source that hands in its stylesheet with a call. -/
def source? : Call → Option Source
  | .add css kind id scope => some { kind, id, css, scope, name := "", js := "" }
  | .addBlock block => some (.ofBlock block)
  | .clear => none

/-- A call for a source hands in its stylesheet and answers whether it was
    added. -/
theorem run_of_source {call : Call} {s : Source} (h : call.source? = some s) (styles : Styles) :
    call.run styles =
      (some (styles.add s.css s.kind s.id s.scope).1, (styles.add s.css s.kind s.id s.scope).2) := by
  cases call with
  | add css kind id scope =>
      cases h
      rfl
  | addBlock block =>
      cases h
      rw [run, addBlock_eq]
      rfl
  | clear => cases h

end Call

/-- The calls since the last clearing. -/
def sinceClear (calls : List Call) : List Call :=
  calls.rtakeWhile fun call => call.source?.isSome

/-- The sources that have handed in since the last clearing, in order. -/
def offered (calls : List Call) : List Source :=
  (sinceClear calls).filterMap Call.source?

/-- A new collection after a list of calls. -/
def afterCalls (calls : List Call) : Styles :=
  calls.foldl (fun styles call => (call.run styles).2) {}

theorem afterCalls_concat (calls : List Call) (call : Call) :
    afterCalls (calls ++ [call]) = (call.run (afterCalls calls)).2 := by
  rw [afterCalls, List.foldl_append]
  rfl

/-- **Only the calls since the last clearing count.** -/
theorem afterCalls_eq (calls : List Call) :
    afterCalls calls = (Assets.takeAll {} (offered calls)).styles := by
  induction calls using List.reverseRecOn with
  | nil => rfl
  | append_singleton calls call ih =>
      rw [afterCalls_concat, offered, sinceClear, List.rtakeWhile_concat]
      cases hsource : call.source? with
      | none =>
          cases call with
          | clear => rfl
          | add | addBlock => cases hsource
      | some s =>
          rw [ih, Call.run_of_source hsource, if_pos (by rfl), List.filterMap_append,
            Assets.takeAll_append, List.filterMap_cons_some hsource]
          rfl

/-- The entries are **the first stylesheet of each source** that is not blank. -/
theorem entries_afterCalls (calls : List Call) :
    (afterCalls calls).entries =
      firstOfEach (((offered calls).filter Source.hasStyle).map Source.styleEntry) := by
  rw [afterCalls_eq, Assets.takeAll_empty]

theorem inStep_afterCalls (calls : List Call) : (afterCalls calls).InStep := by
  rw [afterCalls_eq]
  exact Assets.inStep_takeAll inStep_empty _

/-- **A call answers that it has added** exactly when it has put one entry at the
    end, and that it has not only when it has changed nothing. -/
theorem run_answers (styles : Styles) (call : Call) :
    ((call.run styles).1 = some true ↔ ∃ e, (call.run styles).2.entries = styles.entries ++ [e]) ∧
      ((call.run styles).1 = some false → (call.run styles).2 = styles) := by
  cases hsource : call.source? with
  | none =>
      cases call with
      | clear => simp [Call.run, clear]
      | add | addBlock => cases hsource
  | some s =>
      rw [Call.run_of_source hsource]
      cases haccepts : styles.accepts s.css s.kind s.id with
      | true =>
          rw [add_of_accepts haccepts]
          refine ⟨iff_of_true rfl ⟨_, rfl⟩, ?_⟩
          intro h
          cases h
      | false =>
          rw [add_of_not_accepts haccepts]
          refine ⟨iff_of_false (by simp) ?_, fun _ => rfl⟩
          rintro ⟨e, he⟩
          simp at he

/-- A blank stylesheet is not added. -/
theorem run_of_blank {call : Call} {s : Source} (h : call.source? = some s)
    (hblank : s.hasStyle = false) (styles : Styles) : call.run styles = (some false, styles) := by
  have hnot : styles.accepts s.css s.kind s.id = false := Bool.and_eq_false_iff.mpr (.inl hblank)
  rw [Call.run_of_source h, add_of_not_accepts hnot]

/-- **Every element has a name of its own.** -/
theorem nodup_elementIds {entries : List StyleEntry}
    (once : entries.Pairwise fun d e => ¬(d.kind = e.kind ∧ d.id = e.id)) :
    (globalElementId :: entries.map StyleEntry.elementId).Nodup := by
  rw [List.nodup_cons, List.Nodup, List.pairwise_map]
  constructor
  · intro hmem
    obtain ⟨e, -, he⟩ := List.mem_map.mp hmem
    exact e.elementId_ne_global he
  · refine once.imp ?_
    intro d e hne hid
    exact hne (StyleEntry.elementId_inj hid)

/-- The stylesheets that are written, each with the name of its element. -/
def named (styles : Styles) (globalCss : String) : List (String × String) :=
  (if isBlankText globalCss then [] else [(globalElementId, globalCss)]) ++
    styles.entries.map fun e => (e.elementId, e.css)

/-- **One element for each stylesheet.** -/
theorem elements_eq (styles : Styles) (globalCss : String) :
    styles.elements globalCss =
      String.join ((styles.named globalCss).map fun s => styleElement s.1 s.2) := by
  have hentries : styles.entries.map StyleEntry.element =
      (styles.entries.map fun e => (e.elementId, e.css)).map fun s => styleElement s.1 s.2 := by
    rw [List.map_map]
    rfl
  rw [elements, named, List.map_append, hentries]
  cases isBlankText globalCss with
  | true => simp
  | false => simp

/-- **What any run of calls leaves.**  The entries are the first stylesheets that
    are not blank of the sources since the last clearing, each under the scope
    of that call; exactly their sources are known; a call answers that it has
    added exactly when it has; a blank stylesheet changes nothing; and each
    entry is written as one element with a name of its own, which is made from
    a key of ASCII characters. -/
theorem afterCalls_collects (calls : List Call) :
    let styles := afterCalls calls
    styles.entries =
        firstOfEach (((offered calls).filter Source.hasStyle).map Source.styleEntry) ∧
      (∀ kind id, styles.contains kind id = true ↔
        ∃ e ∈ styles.entries, e.kind = kind ∧ e.id = id) ∧
      (∀ call : Call,
        ((call.run styles).1 = some true ↔
            ∃ e, (call.run styles).2.entries = styles.entries ++ [e]) ∧
          ((call.run styles).1 = some false → (call.run styles).2 = styles)) ∧
      (∀ (call : Call) (s : Source), call.source? = some s → s.hasStyle = false →
        call.run styles = (some false, styles)) ∧
      (∀ globalCss, styles.elements globalCss =
        String.join ((styles.named globalCss).map fun s => styleElement s.1 s.2)) ∧
      (globalElementId :: styles.entries.map StyleEntry.elementId).Nodup ∧
      ∀ e ∈ styles.entries, ∀ c ∈ e.key.toList, c.toNat < 128 := by
  intro styles
  refine ⟨entries_afterCalls calls, ?_, styles.run_answers, ?_, styles.elements_eq, ?_, ?_⟩
  · intro kind id
    exact (inStep_afterCalls calls).contains_iff
  · intro call s hsource hblank
    exact run_of_blank hsource hblank styles
  · refine nodup_elementIds ?_
    show (afterCalls calls).entries.Pairwise _
    rw [entries_afterCalls]
    exact pairwise_firstOfEach _
  · intro e _
    exact e.ascii_key

/-- A scoped block is handed in twice, between a blank stylesheet and a layout,
    after a clearing. -/
theorem afterCalls_collects_scoped :
    let block : Block := { id := 7, css := ".box,b\x7bc:d\x7d" }
    let calls : List Call := [.add "a\x7b\x7d" .layout 3 none, .clear, .add " " .layout 3 (some "q"),
      .addBlock block, .add "e\x7b\x7d" .block 7 none, .add "a\x7bf:g\x7d" .layout 3 none]
    (afterCalls calls).entries =
        [⟨.block, 7, ".codesite-block-7 .box, .codesite-block-7 b\x7bc:d\x7d"⟩,
          ⟨.layout, 3, "a\x7bf:g\x7d"⟩] ∧
      ((Call.addBlock block).run (afterCalls calls)).1 = some false ∧
      (afterCalls calls).elements "" =
        "<style id=\"codesite-block-7-css\">\n" ++
          ".codesite-block-7 .box, .codesite-block-7 b\x7bc:d\x7d\n</style>\n" ++
          "<style id=\"codesite-layout-3-css\">\na\x7bf:g\x7d\n</style>\n" := by
  intro block calls
  obtain ⟨hentries, -, -, -, helements, -⟩ := afterCalls_collects calls
  refine ⟨hentries.trans (by decide +kernel), by decide +kernel, ?_⟩
  rw [helements]
  decide +kernel

end Styles

end PageLoom
