import Mathlib.Data.List.DropRight
import PageLoom.Proofs.Css.LineEnds

/-!
# Places — lines and columns from token to token

    A place is the number of line ends before it and the 16-bit units since the
    last of them (`after_origin`).  Places add up along a text that is not cut
    inside a line end (`after_append`), and tokens are such cuts.  So the place
    that a token is given is the place after all the text before it
    (`foldl_after_text`).
-/

namespace PageLoom.Css

open Text Token

/-! ## Places -/

/-- The number of line ends of a text; a carriage return with a line feed is
    one. -/
def lineEnds : List Char → Nat
  | [] => 0
  | '\r' :: '\n' :: cs => lineEnds cs + 1
  | c :: cs => if isNewline c then lineEnds cs + 1 else lineEnds cs

/-- The number of 16-bit units of a text. -/
def width : List Char → Nat
  | [] => 0
  | c :: cs => units c + width cs

/-- What stands after the last line end of a text. -/
def lastLine (cs : List Char) : List Char :=
  cs.rtakeWhile fun c => !isNewline c

/-- A character that is no part of a line end of two. -/
theorem after_cons {c : Char} {cs : List Char} (h : c = '\r' → cs.head? ≠ some '\n')
    (place : Place) :
    place.after (c :: cs) =
      if isNewline c then Place.after ⟨place.line + 1, 0⟩ cs
      else Place.after ⟨place.line, place.column + units c⟩ cs := by
  rw [Place.after]
  rintro rest rfl rfl
  exact h rfl rfl

theorem getLast?_cons_of_some {c d : Char} {cs : List Char} (h : cs.getLast? = some d) :
    (c :: cs).getLast? = some d := by
  rw [List.getLast?_cons, h, Option.getD_some]

/-- **Places add up** where a text is not cut inside a line end. -/
theorem after_append {a b : List Char} (h : a.getLast? = some '\r' → b.head? ≠ some '\n')
    (place : Place) : place.after (a ++ b) = (place.after a).after b := by
  -- a character that is no part of a line end of two in `a` is none in the whole
  have hsingle : ∀ {c : Char} {cs : List Char}, (∀ rest, c = '\r' → cs = '\n' :: rest → False) →
      ((c :: cs).getLast? = some '\r' → b.head? ≠ some '\n') →
        c = '\r' → (cs ++ b).head? ≠ some '\n' := by
    intro c cs hpair hlast hc
    cases cs with
    | nil => exact hlast (congrArg some hc)
    | cons d ds =>
        intro hhead
        obtain rfl : d = '\n' := Option.some.inj hhead
        exact hpair ds hc rfl
  fun_induction Place.after place a with
  | case1 place => rfl
  | case2 place cs ih =>
      rw [List.cons_append, List.cons_append, Place.after]
      exact ih fun hlast => h (getLast?_cons_of_some (getLast?_cons_of_some hlast))
  | case3 place c cs hpair hline ih =>
      rw [List.cons_append, after_cons (hsingle hpair h), if_pos hline]
      exact ih fun hlast => h (getLast?_cons_of_some hlast)
  | case4 place c cs hpair hline ih =>
      rw [List.cons_append, after_cons (hsingle hpair h), if_neg hline]
      exact ih fun hlast => h (getLast?_cons_of_some hlast)

theorem line_after (place : Place) (cs : List Char) :
    (place.after cs).line = place.line + lineEnds cs := by
  fun_induction Place.after place cs with
  | case1 place => rfl
  | case2 place cs ih =>
      rw [ih, lineEnds, Nat.add_assoc, Nat.add_comm 1]
  | case3 place c cs hpair hline ih =>
      rw [ih, lineEnds, if_pos hline, Nat.add_assoc, Nat.add_comm 1]
      exact hpair
  | case4 place c cs hpair hline ih =>
      rw [ih, lineEnds, if_neg hline]
      exact hpair

/-- Within a line the units add up. -/
theorem column_after_line {cs : List Char} (h : ∀ c ∈ cs, isNewline c = false) (place : Place) :
    (place.after cs).column = place.column + width cs := by
  induction cs generalizing place with
  | nil => rfl
  | cons c cs ih =>
      obtain ⟨hc, hcs⟩ := List.forall_mem_cons.mp h
      have hreturn : c ≠ '\r' := by
        rintro rfl
        cases hc
      rw [after_cons (fun heq => absurd heq hreturn), if_neg (by rw [hc]; exact Bool.false_ne_true),
        ih hcs]
      exact Nat.add_assoc _ _ _

/-- After a line end the units count anew. -/
theorem column_after_lines {cs : List Char} {c : Char} (hlast : cs.getLast? = some c)
    (hc : isNewline c = true) (place : Place) : (place.after cs).column = 0 := by
  fun_induction Place.after place cs with
  | case1 place => cases hlast
  | case2 place cs ih =>
      cases cs with
      | nil => rfl
      | cons d ds => exact ih (by rwa [List.getLast?_cons_cons, List.getLast?_cons_cons] at hlast)
  | case3 place d cs hpair hline ih =>
      cases cs with
      | nil => rfl
      | cons e ds => exact ih (by rwa [List.getLast?_cons_cons] at hlast)
  | case4 place d cs hpair hline ih =>
      cases cs with
      | nil =>
          obtain rfl := Option.some.inj hlast
          exact absurd hc hline
      | cons e ds => exact ih (by rwa [List.getLast?_cons_cons] at hlast)

/-- **The place after a text**, said by itself. -/
theorem after_origin (cs : List Char) :
    Place.after ⟨0, 0⟩ cs = ⟨lineEnds cs, width (lastLine cs)⟩ := by
  have hline : (Place.after ⟨0, 0⟩ cs).line = lineEnds cs :=
    (line_after ⟨0, 0⟩ cs).trans (Nat.zero_add _)
  have hcolumn : (Place.after ⟨0, 0⟩ cs).column = width (lastLine cs) := by
    let before := cs.rdropWhile fun c => !isNewline c
    have hsplit : before ++ lastLine cs = cs := List.rdropWhile_append_rtakeWhile
    have hin : ∀ c ∈ lastLine cs, isNewline c = false := by
      intro c hc
      simpa using List.mem_rtakeWhile_imp hc
    have hcut : before.getLast? = some '\r' → (lastLine cs).head? ≠ some '\n' := by
      intro _ hhead
      have := hin '\n' (List.mem_of_head? hhead)
      cases this
    have hstart : (Place.after ⟨0, 0⟩ before).column = 0 := by
      by_cases hne : before = []
      · rw [hne]
        rfl
      · -- what stands before the last line ends with a line end
        have hlast := List.rdropWhile_last_not _ _ hne
        exact column_after_lines (List.getLast?_eq_getLast_of_ne_nil hne) (by simpa using hlast) _
    conv => lhs; rw [← hsplit]
    rw [after_append hcut, column_after_line hin, hstart, Nat.zero_add]
  calc Place.after ⟨0, 0⟩ cs
      = ⟨(Place.after ⟨0, 0⟩ cs).line, (Place.after ⟨0, 0⟩ cs).column⟩ := rfl
    _ = ⟨lineEnds cs, width (lastLine cs)⟩ := by rw [hline, hcolumn]

/-! ## Tokens of a text -/

theorem tokens_cons (c : Char) (t : List Char) :
    tokens (c :: t) =
      ⟨(scanToken c t).1, c :: t.take (scanToken c t).2⟩ :: tokens (t.drop (scanToken c t).2) := by
  rw [tokens]

/-- **The tokens are the text.** -/
theorem flatMap_text_tokens (css : List Char) : (tokens css).flatMap Token.text = css := by
  induction hlen : css.length using Nat.strongRecOn generalizing css with
  | ind len ih =>
      subst hlen
      cases css with
      | nil =>
          rw [tokens]
          rfl
      | cons c t =>
          have hshorter : (t.drop (scanToken c t).2).length < (c :: t).length := by
            rw [List.length_drop, List.length_cons]
            omega
          rw [tokens_cons, List.flatMap_cons, ih _ hshorter _ rfl, List.cons_append,
            List.take_append_drop]

/-- Tokens with their places, taken apart. -/
theorem placeFrom_append (place : Place) (a b : List Token) :
    placeFrom place (a ++ b) =
      placeFrom place a ++ placeFrom (a.foldl (fun place t => place.after t.text) place) b := by
  induction a generalizing place with
  | nil => rfl
  | cons t a ih => exact congrArg (_ :: ·) (ih _)

/-- Placed tokens that are taken apart were tokens taken apart. -/
theorem placeFrom_eq_append_iff {place : Place} {ts : List Token} {x y : List Placed} :
    placeFrom place ts = x ++ y ↔
      ∃ a b, ts = a ++ b ∧ x = placeFrom place a ∧
        placeFrom (a.foldl (fun place t => place.after t.text) place) b = y := by
  constructor
  · intro h
    induction x generalizing place ts with
    | nil => exact ⟨[], ts, rfl, rfl, h⟩
    | cons p x ih =>
        cases ts with
        | nil => cases h
        | cons t ts =>
            rw [placeFrom, List.cons_append, List.cons.injEq] at h
            obtain ⟨rfl, hrest⟩ := h
            obtain ⟨a, b, rfl, rfl, hb⟩ := ih hrest
            exact ⟨t :: a, b, rfl, rfl, hb⟩
  · rintro ⟨a, b, rfl, rfl, rfl⟩
    exact placeFrom_append place a b

/-- **The place of a token** is the place after the text of the tokens before it. -/
theorem foldl_after_text {css : List Char} {before after : List Token}
    (h : tokens css = before ++ after) (place : Place) :
    before.foldl (fun place t => place.after t.text) place =
      place.after (before.flatMap Token.text) := by
  induction before generalizing css place with
  | nil => rfl
  | cons u before ih =>
      cases css with
      | nil =>
          rw [tokens] at h
          cases h
      | cons c t =>
          rw [tokens_cons] at h
          obtain ⟨rfl, htail⟩ := List.cons.inj h
          have hrest : tokens (t.drop (scanToken c t).2) = before ++ after := htail
          -- the texts before are the start of what follows this token
          have hcut : (c :: t.take (scanToken c t).2).getLast? = some '\r' →
              (before.flatMap Token.text).head? ≠ some '\n' := by
            intro hlast hhead
            refine keepsLineEnd_scanToken c t hlast ?_
            show (t.drop (scanToken c t).2).head? = some '\n'
            rw [← flatMap_text_tokens (t.drop (scanToken c t).2), hrest, List.flatMap_append]
            obtain ⟨rest, hbefore⟩ := List.head?_eq_some_iff.mp hhead
            rw [hbefore]
            rfl
          rw [List.foldl_cons, ih hrest, List.flatMap_cons, after_append hcut]

end PageLoom.Css
