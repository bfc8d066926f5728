import PageLoom.Proofs.Css.Places

/-!
# Brackets — the check as one pass with a stack

    Validation calls itself for the inside of each bracket and stops there at
    the bracket's own end.  Its recursion is a stack of open brackets that the
    tokens push and pop: what the check of the innermost bracket leaves is what
    the pass has still to read once that bracket is popped
    (`foretells_groupRest`).  So the check fails at the token at which the pass
    fails and nowhere else (`validate_eq`), and reports the line and column of
    that token (`validate_iff_failsAt`).
-/

namespace PageLoom.Css

/-! ## The pass -/

/-- The open brackets after tokens of these kinds. -/
def stackAfter (stack : List Bracket) : List TokenKind → Option (List Bracket)
  | [] => some stack
  | kind :: kinds => (kind.act stack).bind fun stack => stackAfter stack kinds

/-- **One pass**: the first token that the open brackets do not allow. -/
def firstFault (stack : List Bracket) : List Placed → Option Placed
  | [] => none
  | t :: ts =>
      match t.kind.act stack with
      | none => some t
      | some stack => firstFault stack ts

/-- What a token needs of the open brackets. -/
theorem TokenKind.act_eq_none_iff {kind : TokenKind} {stack : List Bracket} :
    kind.act stack = none ↔
      kind = .malformed ∨ ∃ b, kind = .closes b ∧ stack.head? ≠ some b := by
  cases kind with
  | opens b => simp [act]
  | closes b =>
      cases stack with
      | nil => simp [act, close]
      | cons b' stack => simp [act, close]
  | malformed => simp [act]
  | other => simp [act]

theorem firstFault_cons_none {stack : List Bracket} {t : Placed} (h : t.kind.act stack = none)
    (ts : List Placed) : firstFault stack (t :: ts) = some t := by
  rw [firstFault, h]

theorem firstFault_cons_some {stack stack' : List Bracket} {t : Placed}
    (h : t.kind.act stack = some stack') (ts : List Placed) :
    firstFault stack (t :: ts) = firstFault stack' ts := by
  rw [firstFault, h]

/-- **Where the pass fails**: after tokens that leave brackets open, at a token that
    these do not allow. -/
theorem firstFault_eq_some_iff {stack : List Bracket} {ts : List Placed} {t : Placed} :
    firstFault stack ts = some t ↔
      ∃ before after, ts = before ++ t :: after ∧
        ∃ stack', stackAfter stack (before.map Placed.kind) = some stack' ∧
          t.kind.act stack' = none := by
  induction ts generalizing stack with
  | nil => simp [firstFault]
  | cons u ts ih =>
      cases hact : u.kind.act stack with
      | none =>
          rw [firstFault_cons_none hact, Option.some.injEq]
          constructor
          · rintro rfl
            exact ⟨[], ts, rfl, stack, rfl, hact⟩
          · rintro ⟨before, after, hsplit, stack', hstack, -⟩
            cases before with
            | nil => exact (List.cons.inj hsplit).1
            | cons v before =>
                obtain ⟨rfl, -⟩ := List.cons.inj hsplit
                rw [List.map_cons, stackAfter, hact] at hstack
                cases hstack
      | some next =>
          rw [firstFault_cons_some hact, ih]
          constructor
          · rintro ⟨before, after, rfl, stack', hstack, hnone⟩
            refine ⟨u :: before, after, rfl, stack', ?_, hnone⟩
            rw [List.map_cons, stackAfter, hact]
            exact hstack
          · rintro ⟨before, after, hsplit, stack', hstack, hnone⟩
            cases before with
            | nil =>
                obtain ⟨rfl, -⟩ := List.cons.inj hsplit
                obtain rfl : stack = stack' := Option.some.inj hstack
                rw [hact] at hnone
                cases hnone
            | cons v before =>
                obtain ⟨rfl, rfl⟩ := List.cons.inj hsplit
                rw [List.map_cons, stackAfter, hact] at hstack
                exact ⟨before, after, rfl, stack', hstack, hnone⟩

/-- The pass fails nowhere exactly when it comes to the end. -/
theorem firstFault_eq_none_iff {stack : List Bracket} {ts : List Placed} :
    firstFault stack ts = none ↔ (stackAfter stack (ts.map Placed.kind)).isSome = true := by
  induction ts generalizing stack with
  | nil => exact iff_of_true rfl rfl
  | cons t ts ih =>
      rw [List.map_cons, stackAfter]
      cases hact : t.kind.act stack with
      | none =>
          rw [firstFault_cons_none hact]
          exact iff_of_false (Option.some_ne_none t) Bool.false_ne_true
      | some stack' =>
          rw [firstFault_cons_some hact]
          exact ih

/-! ## The check -/

/-- The tokens that the check of one bracket leaves, or its fault. -/
def groupRest (closer : Option Bracket) (ts : List Placed) : Except InvalidCss (List Placed) :=
  (checkGroup closer ts).map Subtype.val

theorem groupRest_nil (closer : Option Bracket) : groupRest closer [] = .ok [] := by
  rw [groupRest, checkGroup]
  rfl

theorem groupRest_malformed (closer : Option Bracket) (place : Place) (ts : List Placed) :
    groupRest closer (⟨.malformed, place⟩ :: ts) = .error ⟨place⟩ := by
  rw [groupRest, checkGroup]
  rfl

theorem groupRest_other (closer : Option Bracket) (place : Place) (ts : List Placed) :
    groupRest closer (⟨.other, place⟩ :: ts) = groupRest closer ts := by
  rw [groupRest, groupRest, checkGroup]
  dsimp only
  cases checkGroup closer ts with
  | error fault => rfl
  | ok found => rfl

theorem groupRest_closes (closer : Option Bracket) (b : Bracket) (place : Place)
    (ts : List Placed) :
    groupRest closer (⟨.closes b, place⟩ :: ts) =
      if closer = some b then .ok ts else .error ⟨place⟩ := by
  rw [groupRest, checkGroup]
  dsimp only
  split
  · rfl
  · rfl

theorem groupRest_opens (closer : Option Bracket) (b : Bracket) (place : Place)
    (ts : List Placed) :
    groupRest closer (⟨.opens b, place⟩ :: ts) = groupRest (some b) ts >>= groupRest closer := by
  rw [groupRest, groupRest, checkGroup]
  dsimp only
  cases checkGroup (some b) ts with
  | error fault => rfl
  | ok found =>
      show Except.map _ (checkGroup closer found.1 >>= _) = groupRest closer found.1
      rw [groupRest]
      cases checkGroup closer found.1 with
      | error fault => rfl
      | ok found => rfl

/-- The check of a bracket leaves no more than it was given. -/
theorem length_of_groupRest {closer : Option Bracket} {ts rest : List Placed}
    (h : groupRest closer ts = .ok rest) : rest.length ≤ ts.length := by
  rw [groupRest] at h
  cases hcheck : checkGroup closer ts with
  | error fault =>
      rw [hcheck] at h
      cases h
  | ok found =>
      rw [hcheck] at h
      cases h
      exact found.2

/-- What an outcome of the check says of the pass inside the same brackets: the
    fault is the pass's, or the pass goes on with what is left inside the outer
    brackets.  Outside all brackets nothing is left. -/
def Foretells (stack : List Bracket) (ts : List Placed) : Except InvalidCss (List Placed) → Prop
  | .error fault => ∃ t, firstFault stack ts = some t ∧ fault = ⟨t.place⟩
  | .ok rest => firstFault stack ts = firstFault stack.tail rest ∧ (stack = [] → rest = [])

/-- A token that the brackets allow does not change what is foretold. -/
theorem Foretells.cons {stack stack' : List Bracket} {t : Placed} {ts : List Placed}
    {fault : InvalidCss} (h : Foretells stack' ts (.error fault))
    (hact : t.kind.act stack = some stack') : Foretells stack (t :: ts) (.error fault) := by
  obtain ⟨u, hu, hplace⟩ := h
  exact ⟨u, (firstFault_cons_some hact ts).trans hu, hplace⟩

/-- What is foretold inside the same brackets depends on where the pass fails only. -/
theorem Foretells.congr {stack : List Bracket} {ts ts' : List Placed}
    {outcome : Except InvalidCss (List Placed)} (h : Foretells stack ts' outcome)
    (heq : firstFault stack ts = firstFault stack ts') : Foretells stack ts outcome := by
  cases outcome with
  | error fault =>
      obtain ⟨t, ht, hplace⟩ := h
      exact ⟨t, heq.trans ht, hplace⟩
  | ok rest => exact ⟨heq.trans h.1, h.2⟩

/-- **The check is the pass**, whatever brackets are open. -/
theorem foretells_groupRest (stack : List Bracket) (ts : List Placed) :
    Foretells stack ts (groupRest stack.head? ts) := by
  induction hlen : ts.length using Nat.strongRecOn generalizing ts stack with
  | ind len ih =>
      subst hlen
      cases ts with
      | nil =>
          rw [groupRest_nil]
          exact ⟨rfl, fun _ => rfl⟩
      | cons t ts =>
          obtain ⟨kind, place⟩ := t
          cases kind with
          | malformed =>
              rw [groupRest_malformed]
              exact ⟨_, firstFault_cons_none rfl ts, rfl⟩
          | other =>
              rw [groupRest_other]
              exact (ih _ (Nat.lt_succ_self _) stack ts rfl).congr (firstFault_cons_some rfl ts)
          | closes b =>
              rw [groupRest_closes]
              cases stack with
              | nil => exact ⟨_, firstFault_cons_none rfl ts, rfl⟩
              | cons b' outer =>
                  by_cases hb : b' = b
                  · subst hb
                    have hact : (TokenKind.closes b').act (b' :: outer) = some outer := if_pos rfl
                    rw [List.head?_cons, if_pos rfl]
                    exact ⟨firstFault_cons_some hact ts, fun h => nomatch h⟩
                  · have hact : (TokenKind.closes b).act (b' :: outer) = none := if_neg hb
                    rw [List.head?_cons, if_neg fun h => hb (Option.some.inj h)]
                    exact ⟨_, firstFault_cons_none hact ts, rfl⟩
          | opens b =>
              -- the inside of the bracket is checked first, then what it leaves
              have hinside := ih _ (Nat.lt_succ_self _) (b :: stack) ts rfl
              rw [groupRest_opens]
              cases hcheck : groupRest (some b) ts with
              | error fault =>
                  rw [List.head?_cons, hcheck] at hinside
                  exact hinside.cons rfl
              | ok inner =>
                  rw [List.head?_cons, hcheck] at hinside
                  have hgoes : firstFault stack (⟨.opens b, place⟩ :: ts) =
                      firstFault stack inner := (firstFault_cons_some rfl ts).trans hinside.1
                  have hshorter := Nat.lt_succ_of_le (length_of_groupRest hcheck)
                  exact (ih _ hshorter stack inner rfl).congr hgoes

/-- **Validation is one pass over the tokens.** -/
theorem validate_eq (css : String) :
    validate css =
      match firstFault [] (placeFrom ⟨0, 0⟩ (tokens css.toList)) with
      | none => .ok ()
      | some t => .error ⟨t.place⟩ := by
  have hcheck := foretells_groupRest [] (placeFrom ⟨0, 0⟩ (tokens css.toList))
  rw [validate]
  rw [List.head?_nil, groupRest] at hcheck
  cases hgroup : checkGroup none (placeFrom ⟨0, 0⟩ (tokens css.toList)) with
  | error fault =>
      rw [hgroup] at hcheck
      obtain ⟨t, hfault, rfl⟩ := hcheck
      rw [hfault]
      rfl
  | ok found =>
      rw [hgroup] at hcheck
      obtain ⟨hpass, hnil⟩ := hcheck
      rw [hpass, hnil rfl]
      rfl

/-! ## The fault and its place -/

theorem map_kind_placeFrom (place : Place) (ts : List Token) :
    (placeFrom place ts).map Placed.kind = ts.map Token.kind := by
  induction ts generalizing place with
  | nil => rfl
  | cons t ts ih => exact congrArg (t.kind :: ·) (ih _)

/-- **Validation keeps the open brackets.** -/
theorem validate_eq_ok_iff {css : String} :
    validate css = .ok () ↔
      (stackAfter [] ((tokens css.toList).map Token.kind)).isSome = true := by
  rw [← map_kind_placeFrom ⟨0, 0⟩, ← firstFault_eq_none_iff, validate_eq]
  cases firstFault [] (placeFrom ⟨0, 0⟩ (tokens css.toList)) with
  | none => exact iff_of_true rfl rfl
  | some t => exact iff_of_false (fun h => nomatch h) (Option.some_ne_none t)

/-- **The token at which the pass fails**: the tokens before it leave brackets open,
    and it is malformed or closes a bracket that is not the innermost of them. -/
structure FailsAt (ts before : List Token) (t : Token) : Prop where
  split : ∃ after, ts = before ++ t :: after
  refused : ∃ stack, stackAfter [] (before.map Token.kind) = some stack ∧
    (t.kind = .malformed ∨ ∃ b, t.kind = .closes b ∧ stack.head? ≠ some b)

/-- The pass over placed tokens fails where the pass over the tokens does, at the
    place that this token has. -/
theorem firstFault_placeFrom_iff {css : List Char} {place : Place} :
    (∃ kind, firstFault [] (placeFrom ⟨0, 0⟩ (tokens css)) = some ⟨kind, place⟩) ↔
      ∃ before t, FailsAt (tokens css) before t ∧
        place = Place.after ⟨0, 0⟩ (before.flatMap Token.text) := by
  constructor
  · rintro ⟨kind, hfirst⟩
    obtain ⟨before, after, hsplit, stack, hstack, hnone⟩ := firstFault_eq_some_iff.mp hfirst
    obtain ⟨a, b, htokens, rfl, hb⟩ := placeFrom_eq_append_iff.mp hsplit
    cases b with
    | nil => cases hb
    | cons t b =>
        rw [placeFrom, List.cons.injEq, Placed.mk.injEq, foldl_after_text htokens] at hb
        obtain ⟨⟨rfl, hplace⟩, -⟩ := hb
        rw [map_kind_placeFrom] at hstack
        exact ⟨a, t, ⟨⟨b, htokens⟩, stack, hstack, TokenKind.act_eq_none_iff.mp hnone⟩, hplace.symm⟩
  · rintro ⟨before, t, ⟨⟨after, hsplit⟩, stack, hstack, hrefused⟩, rfl⟩
    have hplaced := placeFrom_append ⟨0, 0⟩ before (t :: after)
    rw [← hsplit, foldl_after_text hsplit, placeFrom] at hplaced
    refine ⟨t.kind, firstFault_eq_some_iff.mpr ⟨_, _, hplaced, stack, ?_, ?_⟩⟩
    · rw [map_kind_placeFrom, hstack]
    · exact TokenKind.act_eq_none_iff.mpr hrefused

/-- **Validation is exact bracket matching.**  A stylesheet is sound exactly when no
    token makes the pass fail; else the fault's line is the number of line ends before
    the token at which it fails, and its column the 16-bit units since the last. -/
theorem validate_iff_failsAt (css : String) :
    (validate css = .ok () ↔ ∀ before t, ¬FailsAt (tokens css.toList) before t) ∧
      ∀ fault, validate css = .error fault ↔
        ∃ before t, FailsAt (tokens css.toList) before t ∧
          fault.place = ⟨lineEnds (before.flatMap Token.text),
            width (lastLine (before.flatMap Token.text))⟩ := by
  have hfails (place : Place) :
      (∃ kind, firstFault [] (placeFrom ⟨0, 0⟩ (tokens css.toList)) = some ⟨kind, place⟩) ↔
        ∃ before t, FailsAt (tokens css.toList) before t ∧
          place = ⟨lineEnds (before.flatMap Token.text),
            width (lastLine (before.flatMap Token.text))⟩ := by
    simp only [← after_origin]
    exact firstFault_placeFrom_iff
  rw [validate_eq]
  cases hfirst : firstFault [] (placeFrom ⟨0, 0⟩ (tokens css.toList)) with
  | none =>
      simp only [hfirst] at hfails
      refine ⟨iff_of_true rfl fun before t h => ?_, fun fault => ?_⟩
      · obtain ⟨kind, hkind⟩ := (hfails _).mpr ⟨before, t, h, rfl⟩
        cases hkind
      · rw [← hfails]
        exact iff_of_false (fun h => nomatch h) (fun ⟨_, h⟩ => nomatch h)
  | some placed =>
      simp only [hfirst] at hfails
      obtain ⟨before, t, h, -⟩ := (hfails placed.place).mp ⟨placed.kind, rfl⟩
      refine ⟨iff_of_false (fun h => nomatch h) fun hnone => hnone before t h, fun fault => ?_⟩
      rw [← hfails, Except.error.injEq]
      constructor
      · rintro rfl
        exact ⟨placed.kind, rfl⟩
      · rintro ⟨kind, hkind⟩
        rw [Option.some.inj hkind]

example : (validate ".a\x7bx:1\x7d\n.b\x7by:2\x7d\x7d").mapError InvalidCss.message =
    .error "invalid CSS at line 2, column 8" := by
  decide +kernel

end PageLoom.Css
