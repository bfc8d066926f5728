import PageLoom.Proofs.Content.Leftmost
import PageLoom.Proofs.Logic.Guard

/-!
# Braces beside values — where the guard meets a literal brace

    In three braces around a field the first is a literal
    (`Content.Markup.leftmost_beside`), so the guarded value stands beside a
    brace that the guard does not see.  What the guard leaves as it is at the
    start of a value opens no tag behind that brace, and the row of letters is
    inert again (`inert_beside`).

    What the guard prints there starts with two braces, and together they are
    three.  Inside a tag no token starts with a brace (`token_brace`), so no
    template reads three of them (`partsOf_three_braces`) and the fragment
    passes as it is, guard and all.  The value prints as it is exactly when it
    does not start with a guarded character (`edit_beside_iff`); a title of one
    percent sign shows the guard (`not_inert_beside`).
-/

namespace PageLoom.Content

/-- **Of three braces the first is a literal**: no field is named by a brace. -/
theorem Markup.leftmost_beside {t : Token} (ht : t.WellFormed) {tail : List Char}
    (h : '{' ∉ tail) : Markup.Leftmost ⟨[(['{'], t)], tail⟩ := by
  refine .part (isLiteral_cons_iff.mpr ⟨?_, isLiteral_nil _⟩) ht
    (.last (isLiteral_of_no_brace h []))
  rintro other hother ⟨rest, hrest⟩
  -- the third brace would be the first character of a field's name
  obtain ⟨c, name, hname⟩ := List.exists_cons_of_ne_nil hother.field_ne_nil
  have hc : isFieldChar c = true := hother.field_chars c (hname ▸ List.mem_cons_self)
  rw [Token.text, Token.inner, hname] at hrest
  obtain ⟨-, hrest⟩ := List.cons.inj hrest
  obtain ⟨-, hrest⟩ := List.cons.inj hrest
  rw [(List.cons.inj hrest).1] at hc
  exact Bool.false_ne_true hc

end PageLoom.Content

namespace PageLoom.Logic

open Content

/-! ## Three braces -/

/-- No token of a tag starts with a brace. -/
theorem token_brace (cs : List Char) : token? ('{' :: cs) = none := by
  cases cs with
  | nil => rfl
  | cons c cs =>
      have hdouble : doubleMark? '{' c = none := by
        rw [doubleMark?]
        split
        · rfl
        · rfl
      show (mark? ('{' :: c :: cs)).map _ = none
      rw [mark?, hdouble]
      rfl

/-- **Three braces are no part of a template.** -/
theorem partsOf_three_braces (fuel : Nat) (cs : List Char) :
    partsOf fuel ('{' :: '{' :: '{' :: cs) = none := by
  cases fuel with
  | zero => rfl
  | succ fuel =>
      have htokens : tagTokens false (('{' :: cs).length + 1) ('{' :: cs) = none := by
        show (token? ('{' :: cs)).bind _ = none
        rw [token_brace]
        rfl
      have htag : tag? '{' ('{' :: cs) = none := by
        show (tagTokens false (('{' :: cs).length + 1) ('{' :: cs)).bind _ = none
        rw [htokens]
        rfl
      show (tag? '{' ('{' :: cs)).bind _ = none
      rw [htag]
      rfl

/-- **A fragment with three braces at its start passes as it is.** -/
theorem edit_three_braces {cs : List Char} (hn : cs.getLast? ≠ some '\n')
    (hr : cs.getLast? ≠ some '\r') (hcs : ∃ rest, cs = '{' :: '{' :: '{' :: rest)
    (context : Context) : edit context (String.ofList cs) = String.ofList cs := by
  obtain ⟨rest, rfl⟩ := hcs
  have hrender : render? context ('{' :: '{' :: '{' :: rest) = none := by
    rw [render?, readTemplate, readParts, withoutFinalNewline_of hn hr, partsOf_three_braces]
    rfl
  rw [edit, String.toList_ofList, hrender]
  exact ite_self _

/-! ## Guarded values beside a brace -/

/-- **A value that could go on with a brace**: it starts with a character that
    the guard prints. -/
def StartsGuarded (value : List Char) : Prop :=
  ∃ c rest, value = c :: rest ∧ c ∈ guarded

/-- The guard prints a guarded character at the start of a value. -/
theorem couldOpen_of_guarded {c : Char} (h : c ∈ guarded) (rest : List Char) :
    couldOpen true c rest = true := by
  simp only [guarded, List.mem_cons, List.not_mem_nil, or_false] at h
  rcases h with rfl | rfl | rfl
  · rfl
  · rfl
  · rfl

/-- The guard drops nothing. -/
theorem length_le_guardFrom (isFirst : Bool) (cs : List Char) :
    cs.length ≤ (guardFrom isFirst cs).length := by
  induction cs generalizing isFirst with
  | nil => exact Nat.le_refl _
  | cons c cs ih =>
      have hone : 1 ≤ (if couldOpen isFirst c cs then printed c else [c]).length := by
        split
        · exact Nat.le_add_left 1 8
        · exact Nat.le_refl 1
      have hrest := ih false
      rw [guardFrom, List.length_append, List.length_cons]
      omega

/-- What the guard prints first stands in braces and makes the value longer. -/
theorem StartsGuarded.guardFrom {value : List Char} (h : StartsGuarded value) :
    (∃ rest, guardFrom true value = '{' :: '{' :: rest) ∧
      value.length < (guardFrom true value).length := by
  obtain ⟨c, rest, rfl, hc⟩ := h
  have hlength := length_le_guardFrom false rest
  rw [Logic.guardFrom, if_pos (couldOpen_of_guarded hc rest)]
  refine ⟨⟨_, rfl⟩, ?_⟩
  rw [List.length_append, List.length_cons]
  show rest.length + 1 < 9 + _
  omega

/-- The letters of a brace, a guarded value and a tail. -/
def besideLetters (value tail : List Char) : List Letter :=
  .plain '{' :: (guardLetters true value ++ tail.map .plain)

theorem sourceOf_besideLetters (value tail : List Char) :
    sourceOf (besideLetters value tail) = '{' :: (guardFrom true value ++ tail) := by
  show '{' :: sourceOf (_ ++ _) = _
  rw [sourceOf_append, sourceOf_guardLetters, sourceOf_plain]

theorem meantBy_besideLetters (value tail : List Char) :
    meantBy (besideLetters value tail) = '{' :: (value ++ tail) := by
  show '{' :: meantBy (_ ++ _) = _
  rw [meantBy_append, meantBy_guardLetters, meantBy_plain]

/-- **Behind a brace** the letters of other values are inert. -/
theorem inert_beside {value tail : List Char} (hne : value ≠ []) (h : ¬StartsGuarded value)
    (htail : '{' ∉ tail) : Inert (besideLetters value tail) := by
  refine .plain (fun _ => ?_) ((inert_guardLetters true value).append (inert_literal htail))
  obtain ⟨d, rest, rfl⟩ := List.exists_cons_of_ne_nil hne
  have hd : d ∉ guarded := fun hd => h ⟨d, rest, rfl, hd⟩
  have hplain : couldOpen true d rest = false :=
    Bool.eq_false_iff.mpr fun h => hd (guarded_of_couldOpen h)
  refine ⟨d, ?_, hd⟩
  rw [guardLetters, hplain]
  rfl

/-- A text between a brace and a tail. -/
def beside (text tail : String) : String :=
  "\x7b" ++ text ++ tail

theorem beside_eq (text tail : String) :
    beside text tail = String.ofList ('{' :: (text.toList ++ tail.toList)) := by
  rw [← String.toList_inj, beside, String.toList_append, String.toList_append,
    String.toList_ofList, String.toList_ofList]
  rfl

/-- A text before a tail ends as the tail. -/
theorem getLast?_beside {tail : List Char} {c d : Char} (h : tail.getLast? = some c) (hd : c ≠ d)
    (cs : List Char) : ('{' :: (cs ++ tail)).getLast? ≠ some d := by
  rw [← List.cons_append, List.getLast?_append, h, Option.some_or]
  exact fun hc => hd (Option.some.inj hc)

/-- **When a value prints as it is beside a brace**: exactly when it does not
    start with a guarded character.  If it does, the fragment passes as it is,
    with the guard in it.  This is what three braces around a field make of its
    value. -/
theorem edit_beside_iff {value tail : String} (hne : value ≠ "") (htail : '{' ∉ tail.toList)
    (hends : ∃ c, tail.toList.getLast? = some c ∧ c ≠ '\n' ∧ c ≠ '\r') (context : Context) :
    (edit context (beside (guardValue value) tail) = beside value tail ↔
      ¬StartsGuarded value.toList) ∧
    (StartsGuarded value.toList →
      edit context (beside (guardValue value) tail) = beside (guardValue value) tail) ∧
    ∀ (engine : Engine) (t : Content.Token), t.WellFormed → engine.evaluate context t = value →
      engine.fillWith guardValue context (beside (String.ofList t.text) tail) =
        beside (guardValue value) tail := by
  obtain ⟨c, hlast, hn, hr⟩ := hends
  have hguard : (guardValue value).toList = guardFrom true value.toList := String.toList_ofList
  have hpasses : StartsGuarded value.toList →
      edit context (beside (guardValue value) tail) = beside (guardValue value) tail := by
    intro h
    obtain ⟨rest, hrest⟩ := h.guardFrom.1
    rw [beside_eq]
    refine edit_three_braces (getLast?_beside hlast hn _) (getLast?_beside hlast hr _)
      ⟨rest ++ tail.toList, ?_⟩ context
    rw [hguard, hrest]
    rfl
  refine ⟨⟨fun hedit h => ?_, fun h => ?_⟩, hpasses, fun engine t ht hvalue => ?_⟩
  · -- the guard makes the value longer, so the fragment did not pass as the value
    rw [hpasses h, beside_eq, beside_eq, String.ofList_inj, List.cons_inj_right,
      List.append_cancel_right_eq, hguard] at hedit
    exact absurd (congrArg List.length hedit) (Nat.ne_of_gt h.guardFrom.2)
  · have hvalue : value.toList ≠ [] := fun h => hne (String.toList_eq_nil_iff.mp h)
    have hsource := sourceOf_besideLetters value.toList tail.toList
    have hedit := edit_source (inert_beside hvalue h htail)
      (hsource ▸ getLast?_beside hlast hn _) (hsource ▸ getLast?_beside hlast hr _) context
    rw [hsource, meantBy_besideLetters] at hedit
    rw [beside_eq, beside_eq, hguard]
    exact hedit
  · have hfill := engine.fillWith_leftmost guardValue context (Markup.leftmost_beside ht htail)
    rw [Markup.text, Markup.filled_cons, Markup.filled_cons, hvalue] at hfill
    rw [beside_eq, beside_eq, String.toList_ofList]
    exact hfill

/-- A value that starts with a digit prints as it is, a tag in it or not. -/
theorem edit_beside_iff_digit :
    "5 \x7b%" ≠ "" ∧ '{' ∉ "\x7d!".toList ∧ "\x7d!".toList.getLast? = some '!' ∧
      ¬StartsGuarded "5 \x7b%".toList ∧
      ∀ context : Context,
        edit context (beside (guardValue "5 \x7b%") "\x7d!") = "\x7b5 \x7b%\x7d!" := by
  have hstart : ¬StartsGuarded "5 \x7b%".toList := by
    rintro ⟨c, rest, hcs, hc⟩
    rw [← (List.cons.inj hcs).1] at hc
    exact absurd hc (by decide)
  refine ⟨by decide, by decide, rfl, hstart, fun context => ?_⟩
  exact (edit_beside_iff (by decide) (by decide) ⟨'!', rfl, by decide, by decide⟩ context).1.mpr
    hstart

/-- **A percent sign shows the guard** when it is the title in three braces. -/
theorem not_inert_beside :
    let context : Context := { request := { now := default, post := some { title := "%" } } }
    let text := Engine.fillWith {} guardValue context "\x7b\x7b\x7bpost_title\x7d\x7d\x7d"
    Engine.fill {} context "\x7b\x7b\x7bpost_title\x7d\x7d\x7d" = "\x7b%\x7d" ∧
      text = "\x7b" ++ guardValue "%" ++ "\x7d" ∧ edit context text = text ∧
      edit context text ≠ "\x7b" ++ "%" ++ "\x7d" := by
  decide +kernel

end PageLoom.Logic
