import PageLoom.Text.Search

/-!
# Tokens — the dynamic parts of a text

    A token is `{{field|filter:argument}}`: two braces, the name of a field,
    any number of filters, and the first two closing braces after the
    opening.  `pieces` cuts a text into literal characters and tokens, the
    leftmost first; braces that open no token are literal.
-/

namespace PageLoom.Content

open Text

/-- A filter in a token: its name and its argument. -/
structure FilterCall where
  name : String
  arg : Option String
  deriving DecidableEq, Repr

/-- A token: a field and the filters after it. -/
structure Token where
  field : String
  filters : List FilterCall
  deriving DecidableEq, Repr

/-- A piece of a text. -/
inductive Piece
  | literal (c : Char)
  | token (t : Token)
  deriving DecidableEq, Repr

/-- Characters of a field's name. -/
def isFieldChar (c : Char) : Bool :=
  c.isAlphanum || c == '_' || c == ':' || c == '-' || c == '.'

/-- Characters of a filter's name. -/
def isFilterChar (c : Char) : Bool :=
  c.isAlphanum || c == '_'

/-- A filter and its argument: what follows the first colon. -/
def filterCall? (part : List Char) : Option FilterCall :=
  let (name, arg) :=
    match cutAtChar ':' part with
    | some (name, arg) => (name, some (String.ofList arg))
    | none => (part, none)
  if name.isEmpty || !name.all isFilterChar then none else some ⟨String.ofList name, arg⟩

/-- The token between the braces. -/
def tokenOf? (inner : List Char) : Option Token :=
  match splitAtChar '|' inner with
  | [] => none
  | field :: parts =>
      if field.isEmpty || !field.all isFieldChar then none
      else (parts.mapM filterCall?).map fun filters => ⟨String.ofList field, filters⟩

/-- The token that opens at the start of a text, and what follows it. -/
def scanToken? (cs : List Char) : Option (Token × List Char) := do
  let afterOpening ← afterLead ['{', '{'] cs
  let (inner, rest) ← cutAt ['}', '}'] afterOpening
  let token ← tokenOf? inner
  return (token, rest)

/-- What follows a token is shorter than the text it starts. -/
theorem length_of_scanToken? {cs rest : List Char} {token : Token}
    (h : scanToken? cs = some (token, rest)) : rest.length < cs.length := by
  simp only [scanToken?, Option.pure_def, Option.bind_eq_bind, Option.bind_eq_some_iff,
    Option.some.injEq, Prod.mk.injEq, Prod.exists] at h
  obtain ⟨body, hbody, inner, tail, hcut, _, _, _, rfl⟩ := h
  have h1 := length_of_cutAt hcut
  rw [afterLead_eq_some_iff.mp hbody]
  simp only [List.length_append, List.length_cons, List.length_nil] at h1 ⊢
  omega

/-- **The pieces of a text.** -/
def pieces : List Char → List Piece
  | [] => []
  | c :: cs =>
      match _scan : scanToken? (c :: cs) with
      | some (token, rest) => .token token :: pieces rest
      | none => .literal c :: pieces cs
termination_by cs => cs.length
decreasing_by
  · exact length_of_scanToken? _scan
  · simp

end PageLoom.Content
