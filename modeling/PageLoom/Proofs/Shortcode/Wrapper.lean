import PageLoom.Proofs.Content.Leftmost
import PageLoom.Proofs.Content.Origin
import PageLoom.Proofs.Shortcode.Openers
import PageLoom.Shortcode.Expansion

/-!
# Wrappers — when values reach the shortcodes

    The stage of shortcodes guards no values, so it reads the filled markup
    as if all of it had been written there.  It leaves a text alone that holds
    no wrapper (`unwrap_of_not_wraps`), and takes away every wrapper that
    there is, so that without handlers the text gets shorter
    (`length_unwrap_lt`).

    In markup that keeps clear of the start of a wrapper only values can open
    one.  Values are therefore inert, whatever the handlers are, exactly when
    no wrapper opens in them (`inert_iff_not_opensWrapper`); a title that is
    written like a shortcode in its wrapper runs the handler
    (`not_inert_title`).
-/

namespace PageLoom.Shortcodes

open Content Shortcode Text

/-- Whether a text holds a wrapper: its start, and somewhere after it its
    end. -/
def Wraps (cs : List Char) : Prop :=
  ∃ before after, cs = before ++ (wrapperStart ++ after) ∧ wrapperEnd <:+: after

/-! ## Expansion -/

/-- Where no tag is known the spans of a text are the text. -/
theorem flatMap_spans {isKnown : List Char → Bool} (h : ∀ tag, isKnown tag = false)
    {write : Span → List Char} (hwrite : ∀ cs, write (.text cs) = cs) (cs : List Char) :
    (spans isKnown cs).flatMap write = cs := by
  induction cs using spans.induct isKnown with
  | case1 =>
      rw [spans]
      rfl
  | case2 c cs hopener ih =>
      rw [spans_of_none hopener, List.flatMap_cons, hwrite, ih]
      rfl
  | case3 c cs opener rest hopener hknown ih =>
      rw [h] at hknown
      cases hknown
  | case4 c cs opener rest hopener hunknown ih =>
      rw [spans_of_unknown hopener (h opener.tag), List.flatMap_cons, hwrite, ih]
      exact (of_opener? hopener).1.symm

theorem expand_empty (context : Context) (cs : List Char) :
    ({} : Shortcodes).expand context cs = cs :=
  flatMap_spans (fun _ => rfl) (fun _ => rfl) cs

/-! ## Wrappers -/

/-- **A text without wrappers** is left alone. -/
theorem unwrap_of_not_wraps (codes : Shortcodes) (context : Context) {cs : List Char}
    (h : ¬Wraps cs) : codes.unwrap context cs = cs := by
  rw [unwrap]
  split
  · rfl
  · rename_i before rest hstart
    split
    · rfl
    · rename_i inner after hend
      refine absurd ⟨before, rest, (cutAt_eq_some_iff.mp hstart).1, inner, after, ?_⟩ h
      rw [List.append_assoc]
      exact (cutAt_eq_some_iff.mp hend).1.symm

/-- **The first wrapper** is taken away and its content, up to the first end, is
    expanded. -/
theorem unwrap_of_wraps {cs : List Char} (h : Wraps cs) :
    ∃ before inner after, cs = before ++ (wrapperStart ++ (inner ++ (wrapperEnd ++ after))) ∧
      IsFirst wrapperStart before (inner ++ (wrapperEnd ++ after)) ∧
      IsFirst wrapperEnd inner after ∧
      ∀ (codes : Shortcodes) (context : Context), codes.unwrap context cs =
        before ++ codes.expand context inner ++ codes.unwrap context after := by
  obtain ⟨before', after', hcs, hin⟩ := h
  cases hstart : cutAt wrapperStart cs with
  | none =>
      refine absurd ⟨before', after', ?_⟩ (cutAt_eq_none_iff.mp hstart)
      rw [hcs, List.append_assoc]
  | some cut =>
      obtain ⟨before, rest⟩ := cut
      -- the end that follows some start follows the first start too
      have hrest : wrapperEnd <:+: rest := hin.trans (suffix_of_cutAt hstart hcs).isInfix
      cases hend : cutAt wrapperEnd rest with
      | none => exact absurd hrest (cutAt_eq_none_iff.mp hend)
      | some cut =>
          obtain ⟨inner, after⟩ := cut
          obtain ⟨rfl, hfirstStart⟩ := cutAt_eq_some_iff_isFirst.mp hstart
          obtain ⟨rfl, hfirstEnd⟩ := cutAt_eq_some_iff_isFirst.mp hend
          refine ⟨before, inner, after, rfl, hfirstStart, hfirstEnd, ?_⟩
          intro codes context
          rw [unwrap]
          split
          · rename_i hnone
            rw [hstart] at hnone
            cases hnone
          · rename_i hsome
            rw [hstart] at hsome
            cases hsome
            split
            · rename_i hnone
              rw [hend] at hnone
              cases hnone
            · rename_i hsome
              rw [hend] at hsome
              cases hsome
              rfl

theorem length_unwrap_le (context : Context) (cs : List Char) :
    (({} : Shortcodes).unwrap context cs).length ≤ cs.length := by
  induction hn : cs.length using Nat.strong_induction_on generalizing cs with
  | _ n ih =>
      by_cases h : Wraps cs
      · obtain ⟨before, inner, after, hcs, -, -, hunwrap⟩ := unwrap_of_wraps h
        have hlength := congrArg List.length hcs
        simp only [List.length_append, wrapperStart, wrapperEnd, List.length_cons,
          List.length_nil] at hlength
        have hafter := ih after.length (by omega) after rfl
        rw [hunwrap, expand_empty, List.length_append, List.length_append]
        omega
      · rw [unwrap_of_not_wraps {} context h]
        omega

/-- **Without handlers a text with a wrapper gets shorter.** -/
theorem length_unwrap_lt (context : Context) {cs : List Char} (h : Wraps cs) :
    (({} : Shortcodes).unwrap context cs).length < cs.length := by
  obtain ⟨before, inner, after, hcs, -, -, hunwrap⟩ := unwrap_of_wraps h
  have hlength := congrArg List.length hcs
  simp only [List.length_append, wrapperStart, wrapperEnd, List.length_cons,
    List.length_nil] at hlength
  have hafter := length_unwrap_le context after
  rw [hunwrap, expand_empty, List.length_append, List.length_append]
  omega

/-! ## Values -/

/-- **A wrapper opens in the values** of a filled markup: its start comes from
    values throughout, and somewhere after it stands its end. -/
def OpensWrapper (m : Markup) (value : Content.Token → List Char) : Prop :=
  ∃ before start after, m.marked value = before ++ (start ++ after) ∧
    start.map Prod.fst = wrapperStart ∧ (∀ x ∈ start, x.2 = .value) ∧
    wrapperEnd <:+: after.map Prod.fst

/-- Markup that keeps clear of the start of a wrapper has wrappers only where
    one opens in the values. -/
theorem wraps_filled_iff {m : Markup} (h : m.KeepsClear wrapperStart)
    (value : Content.Token → List Char) : Wraps (m.filled value) ↔ OpensWrapper m value := by
  constructor
  · rintro ⟨before, after, hcs, hend⟩
    rw [← Markup.map_marked] at hcs
    obtain ⟨before, rest, hmarked, rfl, hrest⟩ := List.map_eq_append_iff.mp hcs
    obtain ⟨start, after, rfl, hstart, rfl⟩ := List.map_eq_append_iff.mp hrest
    exact ⟨before, start, after, hmarked, hstart, h.from_values hstart hmarked, hend⟩
  · rintro ⟨before, start, after, hmarked, hstart, -, hend⟩
    refine ⟨before.map Prod.fst, after.map Prod.fst, ?_, hend⟩
    rw [← Markup.map_marked, hmarked, List.map_append, List.map_append, hstart]

/-- **Values are inert for shortcodes exactly when no wrapper opens in them**: if
    none does, every table of handlers leaves what substitution makes, and
    otherwise not every table does. -/
theorem inert_iff_not_opensWrapper {m : Markup} (h : m.Leftmost)
    (hclear : m.KeepsClear wrapperStart) (engine : Engine) (context : Context) :
    (∀ codes : Shortcodes,
      Stage.run [codes.stage] context
          (engine.fillWith (Stage.guardAll [codes.stage]) context m.text) =
        engine.fill context m.text) ↔
      ¬OpensWrapper m fun t => (engine.evaluate context t).toList := by
  have hfill : engine.fill context m.text =
      String.ofList (m.filled fun t => (engine.evaluate context t).toList) :=
    engine.fillWith_leftmost id context h
  have hrun : ∀ codes : Shortcodes,
      Stage.run [codes.stage] context
          (engine.fillWith (Stage.guardAll [codes.stage]) context m.text) =
        String.ofList (codes.unwrap context (engine.fill context m.text).toList) := fun _ => rfl
  rw [hfill, String.toList_ofList] at hrun
  rw [← wraps_filled_iff hclear, hfill]
  constructor
  · intro hinert hwraps
    -- the table without handlers already takes the wrapper away
    have hsame := congrArg String.toList ((hrun {}).symm.trans (hinert {}))
    rw [String.toList_ofList, String.toList_ofList] at hsame
    exact absurd (congrArg List.length hsame) (Nat.ne_of_lt (length_unwrap_lt context hwraps))
  · intro hwraps codes
    rw [hrun, unwrap_of_not_wraps codes context hwraps]

/-- A note that starts a wrapper and does not end it is inert. -/
theorem inert_iff_not_opensWrapper_note :
    let m : Markup := ⟨[("<p>".toList, ⟨"note", []⟩)], "</p>".toList⟩
    let context : Context :=
      { request := { now := default }, data := [("note", .string "<SCD>[b]")] }
    m.Leftmost ∧ m.KeepsClear wrapperStart ∧
      ∀ codes : Shortcodes,
        Stage.run [codes.stage] context
            (Engine.fillWith {} (Stage.guardAll [codes.stage]) context m.text) =
          "<p><SCD>[b]</p>" := by
  intro m context
  have hm : m.Leftmost := by decide +kernel
  have hclear : m.KeepsClear wrapperStart := by decide +kernel
  refine ⟨hm, hclear, fun codes => ?_⟩
  have hfill : Engine.fill {} context m.text = "<p><SCD>[b]</p>" := by decide +kernel
  rw [(inert_iff_not_opensWrapper hm hclear {} context).mpr ?_ codes, hfill]
  -- there is no end of a wrapper anywhere
  rintro ⟨before, start, after, hmarked, -, -, hend⟩
  have hnone : ¬wrapperEnd <:+: m.filled fun t => (Engine.evaluate {} context t).toList := by
    decide +kernel
  refine hnone (hend.trans ⟨(before ++ start).map Prod.fst, [], ?_⟩)
  rw [List.append_nil, ← Markup.map_marked, hmarked, ← List.append_assoc, ← List.map_append]

/-- **A title runs a handler** when it is written like a shortcode in its
    wrapper. -/
theorem not_inert_title :
    let codes : Shortcodes := ({} : Shortcodes).register "b" fun _ _ _ => "<b >"
    let m : Markup := ⟨[("<h1>".toList, ⟨"post_title", []⟩)], "</h1>".toList⟩
    let context : Context :=
      { request := { now := default, post := some { title := "<SCD>[b]</SCD>" } } }
    m.Leftmost ∧ m.KeepsClear wrapperStart ∧ m.text = "<h1>\x7b\x7bpost_title\x7d\x7d</h1>" ∧
      Stage.run [codes.stage] context
          (Engine.fillWith {} (Stage.guardAll [codes.stage]) context m.text) = "<h1><b ></h1>" ∧
      Engine.fill {} context m.text = "<h1><SCD>[b]</SCD></h1>" := by
  decide +kernel

end PageLoom.Shortcodes
