import PageLoom.Css.Token

/-!
# Sound stylesheets — brackets that match

    A stylesheet is sound when no token is malformed and every closing
    bracket closes the innermost open one; brackets may stay open at the
    end.  `checkGroup` reads the inside of one bracket, and calls itself for
    the brackets within.  A fault is reported at the place of its token.
-/

namespace PageLoom.Css

/-- A place in a text: lines from 0, columns in 16-bit units from 0. -/
structure Place where
  line : Nat
  column : Nat
  deriving DecidableEq, Repr

/-- The number of 16-bit units of a character. -/
def units (c : Char) : Nat :=
  if c.toNat < 0x10000 then 1 else 2

/-- The place after a text that starts at `place`.  A carriage return with a
    line feed is one line end. -/
def Place.after (place : Place) : List Char → Place
  | [] => place
  | '\r' :: '\n' :: cs => Place.after ⟨place.line + 1, 0⟩ cs
  | c :: cs =>
      if Token.isNewline c then Place.after ⟨place.line + 1, 0⟩ cs
      else Place.after ⟨place.line, place.column + units c⟩ cs

/-- A token's kind with its place. -/
structure Placed where
  kind : TokenKind
  place : Place

/-- Tokens with their places, the first one standing at `place`. -/
def placeFrom (place : Place) : List Token → List Placed
  | [] => []
  | t :: ts => ⟨t.kind, place⟩ :: placeFrom (place.after t.text) ts

/-- Why a stylesheet is not sound. -/
structure InvalidCss where
  place : Place
  deriving DecidableEq, Repr

/-- The wording of a fault; lines and columns count from 1. -/
def InvalidCss.message (fault : InvalidCss) : String :=
  "invalid CSS at line " ++ toString (fault.place.line + 1) ++ ", column "
    ++ toString (fault.place.column + 1)

/-- The tokens after the inside of a bracket that `closer` closes, or after the
    whole sheet. -/
def checkGroup (closer : Option Bracket) (ts : List Placed) :
    Except InvalidCss { rest : List Placed // rest.length ≤ ts.length } :=
  match ts with
  | [] => .ok ⟨[], Nat.le_refl _⟩
  | t :: ts =>
      match t.kind with
      | .opens bracket => do
          let ⟨rest, hrest⟩ ← checkGroup (some bracket) ts
          let ⟨rest', hrest'⟩ ← checkGroup closer rest
          return ⟨rest', by simp only [List.length_cons]; omega⟩
      | .closes bracket =>
          if closer = some bracket then .ok ⟨ts, by simp⟩ else .error ⟨t.place⟩
      | .malformed => .error ⟨t.place⟩
      | .other => do
          let ⟨rest, hrest⟩ ← checkGroup closer ts
          return ⟨rest, by simp only [List.length_cons]; omega⟩
termination_by ts.length

/-- **Validation**: whether a stylesheet is sound, or its first fault. -/
def validate (css : String) : Except InvalidCss Unit := do
  let _ ← checkGroup none (placeFrom ⟨0, 0⟩ (tokens css.toList))
  return ()

end PageLoom.Css
