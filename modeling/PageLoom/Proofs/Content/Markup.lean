import PageLoom.Content.Engine
import PageLoom.Proofs.Content.Written

/-!
# Markup — texts between written tokens

    Any text can be seen as markup: literals, and between them written
    tokens (`Markup`).  The scanner sees it so that no token opens inside a
    literal (`Markup.Leftmost`); of such markup it finds exactly the literals
    and the tokens (`Markup.Leftmost.pieces_text`), because it stops nowhere
    inside a literal, and at each token it stops, by the law of the scanner.

    So substitution puts a value in the place of each token and copies
    everything else (`Engine.fillWith_leftmost`).  Markup whose literals hold
    no opening brace (`Markup.WellFormed`) is the case met most.
-/

namespace PageLoom.Content

/-- **Markup**: tokens, each after a text, and the text after the last. -/
structure Markup where
  parts : List (List Char × Token)
  last : List Char

/-- Whether no token opens inside the text `literal` when it stands before
    `rest`. -/
def IsLiteral (literal rest : List Char) : Prop :=
  ∀ tail, tail <:+ literal → tail ≠ [] → ∀ t : Token, t.WellFormed → ¬t.text <+: tail ++ rest

namespace Markup

/-- The markup with its tokens replaced. -/
def filled (m : Markup) (value : Token → List Char) : List Char :=
  m.parts.flatMap (fun part => part.1 ++ value part.2) ++ m.last

/-- **Markup as it is written.** -/
def text (m : Markup) : String :=
  String.ofList (m.filled Token.text)

/-- The pieces that markup is made of. -/
def toPieces (m : Markup) : List Piece :=
  m.parts.flatMap (fun part => part.1.map .literal ++ [.token part.2]) ++ m.last.map .literal

/-- **Leftmost markup**: every token can be written, and none opens inside a
    literal, reading on into what follows it. -/
inductive Leftmost : Markup → Prop
  | last {last : List Char} : IsLiteral last [] → Leftmost ⟨[], last⟩
  | part {literal last : List Char} {t : Token} {parts : List (List Char × Token)} :
      IsLiteral literal (t.text ++ filled ⟨parts, last⟩ Token.text) → t.WellFormed →
      Leftmost ⟨parts, last⟩ → Leftmost ⟨(literal, t) :: parts, last⟩

/-- **Well-formed markup**: no text opens a brace and every token can be
    written. -/
structure WellFormed (m : Markup) : Prop where
  parts_literal : ∀ part ∈ m.parts, '{' ∉ part.1
  parts_token : ∀ part ∈ m.parts, part.2.WellFormed
  last_literal : '{' ∉ m.last

/-- Whether markup ends with a text that does not end a line. -/
def EndsInLine (m : Markup) : Prop :=
  ∃ c, m.last.getLast? = some c ∧ c ≠ '\n' ∧ c ≠ '\r'

theorem filled_cons (literal : List Char) (t : Token) (parts : List (List Char × Token))
    (last : List Char) (value : Token → List Char) :
    filled ⟨(literal, t) :: parts, last⟩ value =
      literal ++ (value t ++ filled ⟨parts, last⟩ value) := by
  rw [filled, List.flatMap_cons, List.append_assoc, List.append_assoc]
  rfl

theorem toPieces_cons (literal : List Char) (t : Token) (parts : List (List Char × Token))
    (last : List Char) :
    toPieces ⟨(literal, t) :: parts, last⟩ =
      literal.map .literal ++ .token t :: toPieces ⟨parts, last⟩ := by
  rw [toPieces, List.flatMap_cons, List.append_assoc, List.append_assoc]
  rfl

end Markup

/-! ## Literals -/

/-- A text is literal when no token opens at its start and the rest of it is
    literal. -/
theorem isLiteral_cons_iff {c : Char} {cs rest : List Char} :
    IsLiteral (c :: cs) rest ↔
      (∀ t : Token, t.WellFormed → ¬t.text <+: c :: cs ++ rest) ∧ IsLiteral cs rest := by
  constructor
  · intro h
    refine ⟨h (c :: cs) (List.suffix_refl _) (List.cons_ne_nil _ _), ?_⟩
    intro tail htail
    exact h tail (htail.trans (List.suffix_cons c cs))
  · rintro ⟨hstart, hrest⟩ tail htail hne
    rcases List.suffix_cons_iff.mp htail with rfl | htail
    · exact hstart
    · exact hrest tail htail hne

theorem isLiteral_nil (rest : List Char) : IsLiteral [] rest := by
  intro tail htail hne
  exact absurd (List.suffix_nil.mp htail) hne

theorem isLiteral_of_no_brace {literal : List Char} (h : '{' ∉ literal) (rest : List Char) :
    IsLiteral literal rest := by
  intro tail htail hne t _ hopens
  obtain ⟨c, tail, rfl⟩ := List.exists_cons_of_ne_nil hne
  -- a token opens with a brace, which would stand in the literal
  obtain ⟨more, hmore⟩ := hopens
  have hc : '{' = c := (List.cons.inj hmore).1
  exact h (hc ▸ htail.subset List.mem_cons_self)

theorem Markup.WellFormed.leftmost {parts : List (List Char × Token)} {last : List Char}
    (h : WellFormed ⟨parts, last⟩) : Leftmost ⟨parts, last⟩ := by
  induction parts with
  | nil => exact .last (isLiteral_of_no_brace h.last_literal [])
  | cons part parts ih =>
      obtain ⟨hliteral, hliterals⟩ := List.forall_mem_cons.mp h.parts_literal
      obtain ⟨htoken, htokens⟩ := List.forall_mem_cons.mp h.parts_token
      exact .part (isLiteral_of_no_brace hliteral _) htoken
        (ih ⟨hliterals, htokens, h.last_literal⟩)

/-! ## Pieces -/

/-- **The next piece**: a token if one opens, a character otherwise. -/
theorem pieces_eq (c : Char) (cs : List Char) :
    (∀ t rest, scanToken? (c :: cs) = some (t, rest) →
      pieces (c :: cs) = .token t :: pieces rest) ∧
    (scanToken? (c :: cs) = none → pieces (c :: cs) = .literal c :: pieces cs) := by
  rw [pieces]
  split
  · rename_i token after hscan
    refine ⟨fun t rest h => ?_, fun h => ?_⟩
    · obtain ⟨rfl, rfl⟩ := Prod.mk.inj (Option.some.inj (hscan.symm.trans h))
      rfl
    · rw [h] at hscan
      cases hscan
  · rename_i hscan
    refine ⟨fun t rest h => ?_, fun _ => rfl⟩
    rw [h] at hscan
    cases hscan

/-- The scanner finds no token exactly where none is written. -/
theorem scanToken?_eq_none_iff {cs : List Char} :
    scanToken? cs = none ↔ ∀ t : Token, t.WellFormed → ¬t.text <+: cs := by
  constructor
  · rintro h t ht ⟨rest, hrest⟩
    rw [scanToken?_eq_some_iff.mpr ⟨hrest.symm, ht⟩] at h
    cases h
  · intro h
    refine Option.eq_none_iff_forall_ne_some.mpr fun found hfound => ?_
    obtain ⟨t, rest⟩ := found
    obtain ⟨hcs, ht⟩ := scanToken?_eq_some_iff.mp hfound
    exact h t ht ⟨rest, hcs.symm⟩

/-- Where a token is written, it is the next piece. -/
theorem pieces_token {t : Token} (h : t.WellFormed) (rest : List Char) :
    pieces (t.text ++ rest) = .token t :: pieces rest :=
  (pieces_eq '{' _).1 t rest (scanToken?_eq_some_iff.mpr ⟨rfl, h⟩)

/-- **The pieces of a literal** are its characters. -/
theorem pieces_append {literal rest : List Char} (h : IsLiteral literal rest) :
    pieces (literal ++ rest) = literal.map .literal ++ pieces rest := by
  induction literal with
  | nil => rfl
  | cons c literal ih =>
      obtain ⟨hstart, hliteral⟩ := isLiteral_cons_iff.mp h
      have hnone : scanToken? (c :: (literal ++ rest)) = none := scanToken?_eq_none_iff.mpr hstart
      rw [List.cons_append, (pieces_eq c _).2 hnone, ih hliteral]
      rfl

/-- **The pieces of leftmost markup** are those it is made of. -/
theorem Markup.Leftmost.pieces_text {m : Markup} (h : m.Leftmost) :
    pieces (m.filled Token.text) = m.toPieces := by
  induction h with
  | @last last hlast =>
      have hpieces := pieces_append hlast
      rw [List.append_nil, pieces, List.append_nil] at hpieces
      exact hpieces
  | @part literal last t parts hliteral htoken _ ih =>
      rw [filled_cons, pieces_append hliteral, pieces_token htoken, ih, toPieces_cons]

end PageLoom.Content

namespace PageLoom.Engine

open Content

/-- What the pieces of markup are replaced by. -/
theorem flatMap_toPieces (engine : Engine) (guard : String → String) (context : Context)
    (m : Markup) :
    m.toPieces.flatMap (engine.fillPiece guard context) =
      m.filled fun t => (guard (engine.evaluate context t)).toList := by
  have hliteral : ∀ literal : List Char,
      (literal.map Piece.literal).flatMap (engine.fillPiece guard context) = literal := by
    intro literal
    rw [List.flatMap_map]
    exact List.flatMap_singleton' literal
  obtain ⟨parts, last⟩ := m
  induction parts with
  | nil => exact hliteral last
  | cons part parts ih =>
      rw [Markup.toPieces_cons, Markup.filled_cons, List.flatMap_append, hliteral,
        List.flatMap_cons, ih]
      rfl

/-- **Substitution in leftmost markup** replaces its tokens. -/
theorem fillWith_leftmost (engine : Engine) (guard : String → String) (context : Context)
    {m : Markup} (h : m.Leftmost) :
    engine.fillWith guard context m.text =
      String.ofList (m.filled fun t => (guard (engine.evaluate context t)).toList) := by
  rw [fillWith, Markup.text, String.toList_ofList, h.pieces_text, flatMap_toPieces]

/-- Substitution in markup whose literals hold no opening brace. -/
theorem fillWith_markup (engine : Engine) (guard : String → String) (context : Context)
    {m : Markup} (h : m.WellFormed) :
    engine.fillWith guard context m.text =
      String.ofList (m.filled fun t => (guard (engine.evaluate context t)).toList) :=
  engine.fillWith_leftmost guard context h.leftmost

end PageLoom.Engine
