import PageLoom.Proofs.Css.Items
import PageLoom.Proofs.Css.Passes

/-!
# Boundaries — scoping over bytes returns for every sheet

    Scoping runs the passes over bytes on the text of each block in turn.  It
    makes three cuts of its own, all in at-rules: after the at-sign, before
    the first opening brace and after it (`atRule?_eq`).  Characters of ASCII
    stand at all of them, so they are boundaries as well, and scoping over
    bytes gives what scoping over characters gives (`scopeSheet_eq`).

    Altogether no cut of a stylesheet fails, whatever the stylesheet
    (`passes_return`).
-/

namespace PageLoom.Css

open Text
open String (utf8Len utf8Len_append utf8Len_cons)

namespace Offset

/-! ## Pieces -/

/-- A selector list under the class of a name. -/
def scopeList? (name selectors : List Char) : Option (List Char) :=
  (selectorMembers selectors).map fun members =>
    [',', ' '].intercalate
      (((members.map trim).filter fun m => !m.isEmpty).map (scopeMember (scopeName name)))

/-- What is left of a style rule under the class of a name. -/
def plainRule? (name text : List Char) : Option (Option (List Char)) :=
  match cutAtBrace text with
  | none => some none
  | some (selectors, rest) =>
      let body := trim (withoutClose rest)
      if body.isEmpty then some none
      else (scopeList? name selectors).map fun members =>
        if members.isEmpty then none else some (members ++ '{' :: body ++ ['}'])

/-- Whether an at-rule holds style rules; its name starts after the at-sign. -/
def isGrouping? (text : List Char) : Option Bool :=
  (sliceFrom? text 1).map fun name => isGrouping ('@' :: name)

/-- What is left of an at-rule, `scopeBody` scoping the text of its block. -/
def atRule? (text : List Char) (closed : Bool)
    (scopeBody : (body : List Char) → body.length < text.length → Option (List Char)) :
    Option (Option (List Char)) :=
  match cutAtBrace text with
  | none => some (some text)
  | some (before, _) =>
      if !closed then some none
      else (isGrouping? text).bind fun grouping =>
        if !grouping then some (some text)
        else (sliceTo? text (utf8Len before)).bind fun heading =>
          match h : sliceFrom? text (utf8Len before + 1) with
          | none => none
          | some body =>
              have hbody := Nat.lt_of_le_of_lt (length_withoutClose_le body) (length_of_sliceFrom? h)
              (scopeBody (withoutClose body) hbody).map fun inner =>
                if inner.isEmpty then none
                else some (trim heading ++ '{' :: '\n' :: inner ++ ['\n', '}'])

/-- The sheet under the class of a name. -/
def scopeSheet (name css : List Char) : Option (List Char) :=
  match _pieces : segments css with
  | none => none
  | some pieces =>
      (pieces.attach.mapM fun piece =>
        if (trim piece.val.text).head? = some '@' then
          atRule? (trim piece.val.text) piece.val.isClosed fun body _shorter => scopeSheet name body
        else plainRule? name (trim piece.val.text)).map fun lines =>
          joinLines (lines.filterMap id)
termination_by css.length
decreasing_by
  obtain rfl := Option.some.inj ((segments_eq css).symm.trans _pieces)
  have h1 := length_of_mem_segments piece.property
  have h2 := length_trim_le piece.val.text
  omega

/-- **Scoping selectors**, byte by byte. -/
def scopeSelectors (selectors name : String) : Option String :=
  (scopeList? name.toList selectors.toList).map String.ofList

/-- **Scoping**, byte by byte. -/
def scope (css name : String) : Option String :=
  (stripComments css.toList).bind fun stripped =>
    (scopeSheet (scopeName name.toList) stripped).map String.ofList

/-! ## No cut fails -/

/-- A selector list is scoped without a failing cut. -/
theorem scopeList?_eq (name selectors : List Char) :
    scopeList? name selectors = some (scopeList name selectors) := by
  rw [scopeList?, selectorMembers_eq]
  rfl

/-- A piece that is no at-rule, cut at its first brace. -/
theorem plainRule?_eq {closed : Bool} (name : List Char) {text : List Char}
    (hat : text.head? ≠ some '@') :
    plainRule? name text = some ((readItem closed text).bind (Item.scoped? name)) := by
  rw [plainRule?, readItem]
  cases cutAtBrace text with
  | none =>
      rw [if_neg hat]
      rfl
  | some halves =>
      obtain ⟨selectors, rest⟩ := halves
      dsimp only
      rw [if_neg hat, Option.bind_some, Item.scoped?, scopeList?_eq, Option.map_some]
      cases (trim (withoutClose rest)).isEmpty with
      | true => rfl
      | false => rfl

/-- The name of an at-rule ends at a boundary. -/
theorem isGrouping?_eq (text : List Char) :
    isGrouping? ('@' :: text) = some (isGrouping ('@' :: text)) := by
  have hname : sliceFrom? ('@' :: text) 1 = some text := sliceFrom?_append ['@'] text
  rw [isGrouping?, hname]
  rfl

/-- What is left of an at-rule, cut by characters. -/
def atRule (scopeBody : List Char → List Char) (closed : Bool) (text : List Char) :
    Option (List Char) :=
  match cutAtBrace text with
  | none => some text
  | some (before, after) =>
      if !closed then none
      else if !isGrouping text then some text
      else
        let inner := scopeBody (withoutClose after)
        if inner.isEmpty then none
        else some (trim before ++ '{' :: '\n' :: inner ++ ['\n', '}'])

/-- **No cut of an at-rule fails.** -/
theorem atRule?_eq {text : List Char} (hat : text.head? = some '@') (closed : Bool)
    {scopeBody : List Char → List Char}
    {scopeBody? : (body : List Char) → body.length < text.length → Option (List Char)}
    (hbody : ∀ body h, scopeBody? body h = some (scopeBody body)) :
    atRule? text closed scopeBody? = some (atRule scopeBody closed text) := by
  obtain ⟨rest, rfl⟩ := List.head?_eq_some_iff.mp hat
  rw [atRule?, atRule]
  cases hcut : cutAtBrace ('@' :: rest) with
  | none => rfl
  | some halves =>
      obtain ⟨before, after⟩ := halves
      have htext : '@' :: rest = before ++ '{' :: after := (cutAtChar_eq_some_iff.mp hcut).1
      have hheading : sliceTo? ('@' :: rest) (utf8Len before) = some before := by
        rw [htext, sliceTo?_append]
      have hinside : sliceFrom? ('@' :: rest) (utf8Len before + 1) = some after := by
        rw [append_char htext, ← utf8Len_concat_of_lt before (by decide : '{'.toNat < 128),
          sliceFrom?_append]
      dsimp only
      rw [isGrouping?_eq, Option.bind_some, hheading, Option.bind_some]
      cases closed with
      | false => rfl
      | true =>
          cases isGrouping ('@' :: rest) with
          | false => rfl
          | true =>
              simp only [Bool.not_true, Bool.false_eq_true, if_false]
              split
              · rename_i hnone
                rw [hinside] at hnone
                cases hnone
              · rename_i body hsome
                rw [hinside] at hsome
                obtain rfl := Option.some.inj hsome
                rw [hbody, Option.map_some]

/-- An at-rule, given what scoping makes of the text inside it. -/
theorem atRule_eq {text : List Char} (hat : text.head? = some '@') (closed : Bool)
    (name : List Char) :
    atRule (fun body => joinLines (scopedItems name (itemsOf body))) closed text =
      (readItem closed text).bind (Item.scoped? name) := by
  rw [atRule, readItem]
  cases cutAtBrace text with
  | none =>
      rw [if_pos hat]
      rfl
  | some halves =>
      obtain ⟨before, after⟩ := halves
      dsimp only
      rw [if_pos hat]
      cases closed with
      | false => rfl
      | true =>
          cases isGrouping text with
          | false => rfl
          | true =>
              simp only [Bool.not_true, Bool.false_eq_true, if_false, if_true, Option.bind_some]
              rw [Item.scoped?]

theorem scopedItems_eq (name : List Char) (items : List Item) :
    scopedItems name items = items.filterMap (Item.scoped? name) := by
  induction items with
  | nil => rfl
  | cons item items ih =>
      rw [scopedItems, List.filterMap_cons]
      cases item.scoped? name with
      | none => exact ih
      | some text => exact congrArg (text :: ·) ih

/-- **Scoping reads the characters.** -/
theorem scopeSheet_eq (name css : List Char) :
    scopeSheet name css = some (joinLines (scopedItems name (itemsOf css))) := by
  induction hlen : css.length using Nat.strongRecOn generalizing css with
  | ind n ih =>
      subst hlen
      rw [scopeSheet]
      split
      · rename_i hnone
        rw [segments_eq] at hnone
        cases hnone
      · rename_i pieces hpieces
        obtain rfl := Option.some.inj ((segments_eq css).symm.trans hpieces)
        have hpiece : ∀ piece : { s // s ∈ Css.segments css },
            (if (trim piece.val.text).head? = some '@' then
              atRule? (trim piece.val.text) piece.val.isClosed fun body _ => scopeSheet name body
            else plainRule? name (trim piece.val.text)) =
              some ((readItem piece.val.isClosed (trim piece.val.text)).bind (Item.scoped? name)) := by
          intro piece
          split
          · rename_i hat
            rw [← atRule_eq hat]
            refine atRule?_eq hat _ fun body hbody => ?_
            have h1 := length_of_mem_segments piece.property
            have h2 := length_trim_le piece.val.text
            exact ih body.length (by omega) body rfl
          · rename_i hat
            exact plainRule?_eq name hat
        have hlines : ((Css.segments css).attach.mapM fun piece =>
            some ((readItem piece.val.isClosed (trim piece.val.text)).bind (Item.scoped? name))) =
              some ((Css.segments css).attach.map fun piece =>
                (readItem piece.val.isClosed (trim piece.val.text)).bind (Item.scoped? name)) :=
          List.mapM_pure
        simp only [hpiece, hlines, Option.map_some]
        rw [List.filterMap_map, scopedItems_eq, itemsOf_eq, List.filterMap_filterMap]
        conv => rhs; rw [← List.attach_map_subtype_val (Css.segments css), List.filterMap_map]
        rfl

/-- **Scoping a selector list** succeeds on every text. -/
theorem scopeSelectors_eq (selectors name : String) :
    scopeSelectors selectors name = some (Css.scopeSelectors selectors name) := by
  rw [scopeSelectors, scopeList?_eq]
  rfl

/-- **Scoping a stylesheet** succeeds on every text and gives the scoped sheet. -/
theorem scope_eq (css name : String) : scope css name = some (Css.scope css name) := by
  rw [scope, stripComments_eq, Option.bind_some, scopeSheet_eq]
  rfl

end Offset

/-- **No cut fails.**  A text is cut at boundaries of its characters only, none of
    them beyond its end; the passes over the bytes of any text find all their
    cuts at such boundaries, and so do at-rules, whatever scopes the text of
    their blocks; and scoping and minification give a text for every text. -/
theorem passes_return :
    (∀ s : String, bytes s.toList = s.toUTF8.data.toList) ∧
    (∀ (s : String) (start stop : Nat), (slice? s.toList start stop).isSome = true ↔
      start ≤ stop ∧ stop ≤ s.utf8ByteSize ∧
        String.Pos.Raw.IsValid s ⟨start⟩ ∧ String.Pos.Raw.IsValid s ⟨stop⟩) ∧
    (∀ css : List Char,
      Offset.stripComments css = some (stripComments css) ∧
      Offset.segments css = some (segments css) ∧
      Offset.selectorMembers css = some (selectorMembers css)) ∧
    (∀ (text : List Char) (closed : Bool) (scopeBody : List Char → List Char),
      (Offset.atRule? ('@' :: text) closed fun body _ => some (scopeBody body)).isSome = true) ∧
    ∀ css name : String,
      Offset.scope css name = some (scope css name) ∧
      Offset.scopeSelectors css name = some (scopeSelectors css name) ∧
      Offset.minify css = some (minify css) := by
  refine ⟨bytes_toList, fun s start stop => ?_, fun css => ?_, fun text closed scopeBody => ?_,
    fun css name => ?_⟩
  · rw [isSome_slice?_iff]
    refine and_congr_right fun _ => ⟨fun h => ?_, And.right⟩
    exact ⟨h.2.le_utf8ByteSize, h⟩
  · exact ⟨Offset.stripComments_eq css, Offset.segments_eq css, Offset.selectorMembers_eq css⟩
  · rw [Offset.atRule?_eq rfl closed fun _ _ => rfl]
    rfl
  · exact ⟨Offset.scope_eq css name, Offset.scopeSelectors_eq css name, Offset.minify_eq css⟩

end PageLoom.Css
