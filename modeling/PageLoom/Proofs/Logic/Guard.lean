import PageLoom.Proofs.Content.Markup
import PageLoom.Proofs.Logic.Inert

/-!
# Guarded values — template logic never reads them

    The guard of a value writes an inert row of letters that mean the value
    (`sourceOf_guardLetters`, `meantBy_guardLetters`, `inert_guardLetters`),
    whatever the value is: a brace that it leaves as it is stands before a
    character that it leaves too and that opens no tag.  Between texts
    without opening braces such rows make an inert row again, so one stage
    of template logic takes off exactly one layer (`edit_filled`).  With one
    layer for each stage, all come off in turn and the values stand in the
    markup as they are (`run_filled`).
-/

namespace PageLoom.Logic

open Content

/-! ## The guard -/

/-- The letters that the guard writes. -/
def guardLetters (isFirst : Bool) : List Char → List Letter
  | [] => []
  | c :: cs =>
      (if couldOpen isFirst c cs then .printed c else .plain c) :: guardLetters false cs

/-- The guard writes its letters. -/
theorem sourceOf_guardLetters (isFirst : Bool) (cs : List Char) :
    sourceOf (guardLetters isFirst cs) = guardFrom isFirst cs := by
  induction cs generalizing isFirst with
  | nil => rfl
  | cons c cs ih =>
      rw [guardLetters, guardFrom, sourceOf, List.flatMap_cons]
      show _ ++ sourceOf (guardLetters false cs) = _
      rw [ih]
      cases couldOpen isFirst c cs with
      | true => rfl
      | false => rfl

/-- The letters of the guard mean the value. -/
theorem meantBy_guardLetters (isFirst : Bool) (cs : List Char) :
    meantBy (guardLetters isFirst cs) = cs := by
  induction cs generalizing isFirst with
  | nil => rfl
  | cons c cs ih =>
      rw [guardLetters, meantBy, List.map_cons]
      show _ :: meantBy (guardLetters false cs) = _
      rw [ih]
      cases couldOpen isFirst c cs with
      | true => rfl
      | false => rfl

/-- Only a guarded character could open a tag. -/
theorem guarded_of_couldOpen {isFirst : Bool} {c : Char} {cs : List Char}
    (h : couldOpen isFirst c cs = true) : c ∈ guarded := by
  rw [couldOpen] at h
  by_cases hc : c = '{'
  · rw [hc]
    exact List.mem_cons_self
  · rw [if_neg (by rw [beq_iff_eq]; exact hc)] at h
    have hmark := (Bool.and_eq_true_iff.mp h).2
    rw [Bool.or_eq_true_iff, beq_iff_eq, beq_iff_eq] at hmark
    exact List.mem_cons_of_mem _ (hmark.elim (fun h => h ▸ List.mem_cons_self)
      fun h => List.mem_cons_of_mem _ (List.mem_singleton.mpr h))

/-- A brace that is left as it is has a character after it that is left too. -/
theorem exists_of_not_couldOpen {isFirst : Bool} {cs : List Char}
    (h : couldOpen isFirst '{' cs = false) :
    ∃ d, (guardLetters false cs).head? = some (.plain d) ∧ d ∉ guarded := by
  obtain ⟨hfirst, hopens⟩ := Bool.or_eq_false_iff.mp (show
    (isFirst || cs.isEmpty || opensTag cs) = false from h)
  cases cs with
  | nil => exact Bool.noConfusion (Bool.or_eq_false_iff.mp hfirst).2
  | cons d cs =>
      have hd : d ∉ guarded := fun hd => Bool.false_ne_true (hopens.symm.trans (opensTag_cons.mpr hd))
      -- after the first character only an opening brace is ever printed
      have hplain : couldOpen false d cs = false :=
        Bool.eq_false_iff.mpr fun h => hd (guarded_of_couldOpen h)
      refine ⟨d, ?_, hd⟩
      rw [guardLetters, hplain]
      rfl

/-- **The guard is inert**, whatever the value is. -/
theorem inert_guardLetters (isFirst : Bool) (cs : List Char) :
    Inert (guardLetters isFirst cs) := by
  induction cs generalizing isFirst with
  | nil => exact .nil
  | cons c cs ih =>
      rw [guardLetters]
      cases hopen : couldOpen isFirst c cs with
      | true => exact .printed (guarded_of_couldOpen hopen) (ih false)
      | false =>
          refine .plain (fun hc => ?_) (ih false)
          subst hc
          exact exists_of_not_couldOpen hopen

/-! ## Layers -/

/-- The letters of markup whose values are guarded. -/
def markupLetters (m : Markup) (value : Content.Token → List Char) : List Letter :=
  m.parts.flatMap (fun part => part.1.map .plain ++ guardLetters true (value part.2)) ++
    m.last.map .plain

theorem sourceOf_markupLetters (m : Markup) (value : Content.Token → List Char) :
    sourceOf (markupLetters m value) = m.filled fun t => guardFrom true (value t) := by
  rw [markupLetters, sourceOf_append, sourceOf_plain, sourceOf, List.flatMap_assoc, Markup.filled]
  refine congrArg (m.parts.flatMap · ++ m.last) (funext fun part => ?_)
  show sourceOf _ = _
  rw [sourceOf_append, sourceOf_plain, sourceOf_guardLetters]

theorem meantBy_markupLetters (m : Markup) (value : Content.Token → List Char) :
    meantBy (markupLetters m value) = m.filled value := by
  rw [markupLetters, meantBy_append, meantBy_plain, meantBy, List.map_flatMap, Markup.filled]
  refine congrArg (m.parts.flatMap · ++ m.last) (funext fun part => ?_)
  show meantBy _ = _
  rw [meantBy_append, meantBy_plain, meantBy_guardLetters]

theorem inert_markupLetters {parts : List (List Char × Content.Token)} {last : List Char}
    (h : Markup.WellFormed ⟨parts, last⟩) (value : Content.Token → List Char) :
    Inert (markupLetters ⟨parts, last⟩ value) := by
  induction parts with
  | nil => exact inert_literal h.last_literal
  | cons part parts ih =>
      obtain ⟨hliteral, hliterals⟩ := List.forall_mem_cons.mp h.parts_literal
      obtain ⟨-, htokens⟩ := List.forall_mem_cons.mp h.parts_token
      rw [markupLetters, List.flatMap_cons, List.append_assoc]
      exact ((inert_literal hliteral).append (inert_guardLetters true _)).append
        (ih ⟨hliterals, htokens, h.last_literal⟩)

/-- Markup ends as its last text. -/
theorem getLast?_filled {m : Markup} {c : Char} (h : m.last.getLast? = some c)
    (value : Content.Token → List Char) : (m.filled value).getLast? = some c := by
  rw [Markup.filled, List.getLast?_append, h, Option.some_or]

/-- **One stage takes off one layer.** -/
theorem edit_filled {m : Markup} (h : m.WellFormed) (hends : m.EndsInLine)
    (value : Content.Token → String) (context : Context) :
    edit context (String.ofList (m.filled fun t => (guardValue (value t)).toList)) =
      String.ofList (m.filled fun t => (value t).toList) := by
  obtain ⟨c, hlast, hn, hr⟩ := hends
  have hguard : (fun t => (guardValue (value t)).toList) =
      fun t => guardFrom true (value t).toList :=
    funext fun t => String.toList_ofList
  have hnot : ∀ d, c ≠ d →
      (sourceOf (markupLetters m fun t => (value t).toList)).getLast? ≠ some d := by
    intro d hd hlast'
    rw [sourceOf_markupLetters, getLast?_filled hlast] at hlast'
    exact hd (Option.some.inj hlast')
  have hedit := edit_source (inert_markupLetters h fun t => (value t).toList) (hnot _ hn)
    (hnot _ hr) context
  rw [sourceOf_markupLetters, meantBy_markupLetters] at hedit
  rw [hguard]
  exact hedit

/-- **All layers come off**, one at each stage. -/
theorem run_filled {m : Markup} (h : m.WellFormed) (hends : m.EndsInLine)
    (value : Content.Token → String) (context : Context) (k : Nat) :
    Stage.run (List.replicate k stage) context
        (String.ofList
          (m.filled fun t => (Stage.guardAll (List.replicate k stage) (value t)).toList)) =
      String.ofList (m.filled fun t => (value t).toList) := by
  induction k with
  | zero => rfl
  | succ k ih =>
      -- the first stage meets the outermost layer
      have hstep := edit_filled h hends
        (fun t => Stage.guardAll (List.replicate k stage) (value t)) context
      show Stage.run (List.replicate k stage) context (edit context _) = _
      exact (congrArg _ hstep).trans ih

/-- **Template logic is inert for values**: in markup that ends with a text not
    at a line end, any number of stages leaves what substitution makes, and
    this is every value character for character between the texts. -/
theorem run_fillWith_guardAll {m : Markup} (h : m.WellFormed) (hends : m.EndsInLine)
    (engine : Engine) (context : Context) (k : Nat) :
    Stage.run (List.replicate k stage) context
        (engine.fillWith (Stage.guardAll (List.replicate k stage)) context m.text) =
      engine.fill context m.text ∧
    engine.fill context m.text =
      String.ofList (m.filled fun t => (engine.evaluate context t).toList) := by
  have hfill : engine.fill context m.text =
      String.ofList (m.filled fun t => (engine.evaluate context t).toList) :=
    engine.fillWith_markup id context h
  refine ⟨?_, hfill⟩
  rw [hfill, engine.fillWith_markup _ _ h]
  exact run_filled h hends (engine.evaluate context) context k

/-- A note that is written like a tag passes two stages. -/
theorem run_fillWith_guardAll_note :
    let m : Markup :=
      ⟨[("<p>".toList, ⟨"note", [⟨"default", some "\x7b# none"⟩]⟩)], "</p>".toList⟩
    let context : Context :=
      { request := { now := default }, data := [("note", .string "\x7b% if x %\x7d")] }
    m.WellFormed ∧ m.EndsInLine ∧ m.text = "<p>\x7b\x7bnote|default:\x7b# none\x7d\x7d</p>" ∧
      Stage.run [stage, stage] context
          (Engine.fillWith {} (Stage.guardAll [stage, stage]) context m.text) =
        "<p>\x7b% if x %\x7d</p>" := by
  intro m context
  have hm : m.WellFormed := by
    refine ⟨List.forall_mem_singleton.mpr (by decide +kernel),
      List.forall_mem_singleton.mpr ⟨by decide +kernel, List.all_eq_true.mp (by decide +kernel),
        List.forall_mem_singleton.mpr ⟨by decide +kernel, ?_⟩,
        List.forall_mem_singleton.mpr (by decide +kernel), by decide +kernel⟩,
      by decide +kernel⟩
    exact List.all_eq_true.mp (by decide +kernel)
  have hends : m.EndsInLine := ⟨'>', by decide +kernel, by decide, by decide⟩
  have hrun := (run_fillWith_guardAll hm hends {} context 2).1
  have hfill : Engine.fill {} context m.text = "<p>\x7b% if x %\x7d</p>" := by decide +kernel
  exact ⟨hm, hends, by decide +kernel, hrun.trans hfill⟩

end PageLoom.Logic
