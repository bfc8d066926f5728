import PageLoom.Logic.Template
import PageLoom.Proofs.Text.Cut

/-!
# Inert texts — what a template gives back character for character

    A guarded text is a row of letters, some as they are and some as printed
    strings (`Letter`).  Such a row is inert if every printed letter is one
    that the guard prints and no brace that stands as it is can open a tag,
    whatever comes next (`Inert`); inert rows can be put side by side
    (`Inert.append`).

    A template reads an inert row letter by letter (`partsOf_source`): one
    law for each of the two kinds of letters.  So editing takes off one
    layer of the guard and does nothing else (`edit_source`), also where it
    sees no tag and leaves the text alone, since then no letter is printed.
-/

namespace PageLoom.Logic

open Text

/-! ## Letters -/

/-- A character of a guarded text: as it is, or as a printed string. -/
inductive Letter
  | plain (c : Char)
  | printed (c : Char)
  deriving DecidableEq

namespace Letter

/-- The character meant. -/
def char : Letter → Char
  | plain c => c
  | printed c => c

/-- The letter as it stands in a template. -/
def source : Letter → List Char
  | plain c => [c]
  | printed c => Logic.printed c

/-- The part of a template that the letter is. -/
def part : Letter → Part
  | plain c => .char c
  | printed c => .print false [.string (String.ofList [c])]

/-- The statement that the letter is. -/
def statement : Letter → Statement
  | plain c => .text [c]
  | printed c => .print (.constant (.string (String.ofList [c])))

end Letter

/-- A row of letters as it stands in a template. -/
def sourceOf (letters : List Letter) : List Char :=
  letters.flatMap Letter.source

/-- The text that a row of letters means. -/
def meantBy (letters : List Letter) : List Char :=
  letters.map Letter.char

theorem sourceOf_append (a b : List Letter) : sourceOf (a ++ b) = sourceOf a ++ sourceOf b :=
  List.flatMap_append

theorem meantBy_append (a b : List Letter) : meantBy (a ++ b) = meantBy a ++ meantBy b :=
  List.map_append

/-- A text as it is. -/
theorem sourceOf_plain (cs : List Char) : sourceOf (cs.map .plain) = cs := by
  rw [sourceOf, List.flatMap_map]
  exact List.flatMap_singleton' cs

/-- A text as it is means itself. -/
theorem meantBy_plain (cs : List Char) : meantBy (cs.map .plain) = cs := by
  rw [meantBy, List.map_map]
  exact List.map_id cs

/-- The characters that the guard prints. -/
def guarded : List Char := ['{', '%', '#']

/-- **Inert letters**: only guarded characters are printed, and after a brace
    that stands as it is comes a letter that stands as it is and opens no
    tag. -/
inductive Inert : List Letter → Prop
  | nil : Inert []
  | printed {c : Char} {letters : List Letter} (hc : c ∈ guarded) (h : Inert letters) :
      Inert (.printed c :: letters)
  | plain {c : Char} {letters : List Letter}
      (hc : c = '{' → ∃ d, letters.head? = some (.plain d) ∧ d ∉ guarded) (h : Inert letters) :
      Inert (.plain c :: letters)

/-- **Inert rows side by side** are inert. -/
theorem Inert.append {a b : List Letter} (ha : Inert a) (hb : Inert b) : Inert (a ++ b) := by
  induction ha with
  | nil => exact hb
  | printed hc _ ih => exact .printed hc ih
  | plain hc _ ih =>
      refine .plain (fun h => ?_) ih
      obtain ⟨d, hd, hplain⟩ := hc h
      exact ⟨d, List.head?_append.trans (by rw [hd, Option.some_or]), hplain⟩

/-- A text without an opening brace is inert as it is. -/
theorem inert_literal {cs : List Char} (h : '{' ∉ cs) : Inert (cs.map .plain) := by
  induction cs with
  | nil => exact .nil
  | cons c cs ih =>
      refine .plain (fun hc => ?_) (ih fun hin => h (List.mem_cons_of_mem _ hin))
      exact absurd (hc ▸ List.mem_cons_self) h

/-! ## Reading -/

/-- A printed letter is a tag with one string. -/
theorem tag_printed {c : Char} (hc : c ∈ guarded) (rest : List Char) :
    tag? '{' ((printed c).drop 2 ++ rest) =
      some (.print false [.string (String.ofList [c])], rest) := by
  simp only [guarded, List.mem_cons, List.not_mem_nil, or_false] at hc
  rcases hc with rfl | rfl | rfl
  · rfl
  · rfl
  · rfl

/-- A guarded character is what a tag opens with. -/
theorem opensTag_cons {c : Char} {cs : List Char} :
    opensTag (c :: cs) = true ↔ c ∈ guarded := by
  simp only [opensTag, guarded, Bool.or_eq_true, beq_iff_eq, List.mem_cons, List.not_mem_nil,
    or_false, or_assoc]

/-- A character that opens no tag is a part. -/
theorem partsOf_char {c : Char} {cs : List Char} (h : c = '{' → opensTag cs = false)
    (fuel : Nat) : partsOf (fuel + 1) (c :: cs) = (partsOf fuel cs).map (.char c :: ·) := by
  refine if_neg fun hopens => ?_
  obtain ⟨hc, hopens⟩ := Bool.and_eq_true_iff.mp hopens
  rw [h (beq_iff_eq.mp hc)] at hopens
  exact Bool.false_ne_true hopens

/-- **Reading an inert row** gives its letters. -/
theorem partsOf_source {letters : List Letter} (h : Inert letters) (fuel : Nat) :
    partsOf ((sourceOf letters).length + fuel) (sourceOf letters) =
      some (letters.map Letter.part) := by
  induction h generalizing fuel with
  | nil => rw [sourceOf, List.flatMap_nil, partsOf, List.map_nil]
  | @printed c letters hc _ ih =>
      -- one step reads the nine characters of a printed letter
      have hfuel : (sourceOf (.printed c :: letters)).length + fuel =
          (sourceOf letters).length + (fuel + 8) + 1 := by
        rw [sourceOf, List.flatMap_cons, List.length_append]
        show 9 + (sourceOf letters).length + fuel = _
        omega
      rw [hfuel]
      show (tag? '{' ((printed c).drop 2 ++ sourceOf letters)).bind _ = _
      rw [tag_printed hc, Option.bind_some]
      show (partsOf _ (sourceOf letters)).bind _ = _
      rw [ih]
      rfl
  | @plain c letters hc _ ih =>
      -- the letter after a brace stands as it is, so its source is itself
      have hopens : c = '{' → opensTag (sourceOf letters) = false := by
        intro hbrace
        obtain ⟨d, hd, hplain⟩ := hc hbrace
        obtain ⟨rest, rfl⟩ := List.head?_eq_some_iff.mp hd
        exact Bool.eq_false_iff.mpr fun h => hplain (opensTag_cons.mp h)
      have hfuel : (sourceOf (.plain c :: letters)).length + fuel =
          (sourceOf letters).length + fuel + 1 :=
        Nat.succ_add _ _
      rw [hfuel]
      show partsOf _ (c :: sourceOf letters) = _
      rw [partsOf_char hopens, ih]
      rfl

/-- Letters take away no white space. -/
theorem trimmed_letters (letters : List Letter) :
    trimmed (letters.map Letter.part) = letters.map Letter.part := by
  induction letters with
  | nil => rfl
  | cons l letters ih =>
      cases l with
      | printed c =>
          show _ :: trimmed (letters.map Letter.part) = _
          rw [ih]
          rfl
      | plain c =>
          have hkeeps : startsTrimming (letters.map Letter.part) = false := by
            cases letters with
            | nil => rfl
            | cons m letters => cases m <;> rfl
          rw [List.map_cons, Letter.part, trimmed, ih, hkeeps, Bool.and_false]
          rfl

/-- A text that ends with no line end is read to its end. -/
theorem withoutFinalNewline_of {cs : List Char} (hn : cs.getLast? ≠ some '\n')
    (hr : cs.getLast? ≠ some '\r') : withoutFinalNewline cs = cs := by
  rw [withoutFinalNewline, if_neg hn, if_neg hr]

/-! ## Rendering -/

/-- One letter makes one statement. -/
theorem building_part (b : Building) (l : Letter) :
    b.part l.part = some (b.add l.statement) := by
  cases l with
  | plain c => rfl
  | printed c => rfl

/-- **The statements of letters.** -/
theorem statementsFrom_letters (letters : List Letter) (before : List Statement) :
    statementsFrom ⟨before, []⟩ (letters.map Letter.part) =
      some (before.reverse ++ letters.map Letter.statement) := by
  induction letters generalizing before with
  | nil =>
      rw [List.map_nil, List.map_nil, List.append_nil]
      rfl
  | cons l letters ih =>
      rw [List.map_cons, statementsFrom, building_part, Option.bind_some]
      show statementsFrom ⟨l.statement :: before, []⟩ (letters.map Letter.part) = _
      rw [ih, List.reverse_cons, List.append_assoc, List.map_cons]
      rfl

/-- A letter renders as its character. -/
theorem renderOne_letter (scope : Scope) (l : Letter) :
    renderOne scope l.statement = some [l.char] := by
  cases l with
  | plain c => rw [Letter.statement, renderOne, Letter.char]
  | printed c =>
      rw [Letter.statement, renderOne, eval]
      show some (String.ofList [c]).toList = _
      rw [String.toList_ofList, Letter.char]

/-- **Letters render as the text they mean.** -/
theorem renderAll_letters (scope : Scope) (letters : List Letter) :
    renderAll scope (letters.map Letter.statement) = some (meantBy letters) := by
  induction letters with
  | nil => rw [List.map_nil, renderAll, meantBy, List.map_nil]
  | cons l letters ih =>
      rw [List.map_cons, renderAll, renderOne_letter, ih]
      rfl

/-- **An inert row renders as the text it means.** -/
theorem render_source {letters : List Letter} (h : Inert letters)
    (hn : (sourceOf letters).getLast? ≠ some '\n') (hr : (sourceOf letters).getLast? ≠ some '\r')
    (context : Context) :
    render? context (sourceOf letters) = some (meantBy letters) := by
  have hparts : readParts (sourceOf letters) = some (letters.map Letter.part) := by
    rw [readParts, withoutFinalNewline_of hn hr]
    show (partsOf ((sourceOf letters).length + 0) (sourceOf letters)).map trimmed = _
    rw [partsOf_source h, Option.map_some, trimmed_letters]
  rw [render?, readTemplate, hparts, Option.bind_some, statementsFrom_letters, Option.bind_some]
  exact renderAll_letters _ letters

/-! ## Editing -/

/-- A text with a tag has it wherever it stands. -/
theorem hasTag_cons {cs : List Char} (c : Char) (h : hasTag cs = true) :
    hasTag (c :: cs) = true := by
  refine Bool.or_eq_true_iff.mpr ((Bool.or_eq_true_iff.mp h).imp ?_ ?_)
  · exact occurs_cons _ cs c
  · exact occurs_cons _ cs c

/-- A row without a tag has no printed letter: it is the text it means. -/
theorem source_of_not_hasTag {letters : List Letter} (h : hasTag (sourceOf letters) = false) :
    sourceOf letters = meantBy letters := by
  induction letters with
  | nil => rfl
  | cons l letters ih =>
      cases l with
      | printed c =>
          have htag : hasTag (sourceOf (.printed c :: letters)) = true :=
            Bool.or_eq_true_iff.mpr (Or.inr rfl)
          exact Bool.noConfusion (htag.symm.trans h)
      | plain c =>
          have hrest : hasTag (sourceOf letters) = false :=
            Bool.eq_false_iff.mpr fun htag => Bool.eq_false_iff.mp h (hasTag_cons c htag)
          exact congrArg (c :: ·) (ih hrest)

/-- **Editing takes off one layer** of the guard. -/
theorem edit_source {letters : List Letter} (h : Inert letters)
    (hn : (sourceOf letters).getLast? ≠ some '\n') (hr : (sourceOf letters).getLast? ≠ some '\r')
    (context : Context) :
    edit context (String.ofList (sourceOf letters)) = String.ofList (meantBy letters) := by
  rw [edit, String.toList_ofList]
  cases htag : hasTag (sourceOf letters) with
  | true =>
      rw [if_pos rfl, render_source h hn hr]
      rfl
  | false => rw [if_neg Bool.false_ne_true, source_of_not_hasTag htag]

end PageLoom.Logic
