import Mathlib.Data.List.DropRight
import PageLoom.Proofs.Css.Comments
import PageLoom.Proofs.Css.Stretches

/-!
# Joined stylesheets — minifying one sheet after another

    A sheet that ends in a closing brace, outside comments and strings and
    with no parenthesis open (`EndsInBrace`), leaves minification as it was at
    the start but for the text written.  So the next sheet is minified as if
    it stood alone (`minifyChars_append`), unless white space before it means
    something: before a colon, or white space of another kind
    (`StartsPlainly`).
-/

namespace PageLoom.Css

open Text

/-! ## Both ends of a sheet -/

/-- A sheet **that ends in a closing brace**: but for comments and stylesheet
    white space it is the last character, and it stands outside comments and
    strings, with no parenthesis open. -/
structure EndsInBrace (css : List Char) : Prop where
  outside : Stripping.after (.text .code) css = .text .code
  brace : ((stripComments css).rdropWhile isSpacing).getLast? = some '}'
  parens : openAfter '(' ')' .code 0 (stripComments css) = 0

instance (css : List Char) : Decidable (EndsInBrace css) :=
  decidable_of_iff
    (Stripping.after (.text .code) css = .text .code ∧
      ((stripComments css).rdropWhile isSpacing).getLast? = some '}' ∧
      openAfter '(' ')' .code 0 (stripComments css) = 0)
    ⟨fun h => ⟨h.1, h.2.1, h.2.2⟩, fun h => ⟨h.outside, h.brace, h.parens⟩⟩

/-- A text whose first character, but for stylesheet white space, is neither a
    colon nor other white space. -/
def StartsPlainly (t : List Char) : Prop :=
  ∀ c ∈ (t.dropWhile isSpacing).head?, c ≠ ':' ∧ isBlank c = false

instance (t : List Char) : Decidable (StartsPlainly t) :=
  Option.decidableForallMem _

/-- The text up to the closing brace. -/
theorem EndsInBrace.exists_close {css : List Char} (h : EndsInBrace css) :
    ∃ x w, stripComments css = x ++ '}' :: w ∧ AllSpacing w ∧
      Quoting.code.after x = .code ∧ openAfter '(' ')' .code 0 x = 0 := by
  obtain ⟨x, hx⟩ := List.getLast?_eq_some_iff.mp h.brace
  have hsplit : stripComments css = x ++ '}' :: (stripComments css).rtakeWhile isSpacing := by
    rw [List.append_cons, ← hx, List.rdropWhile_append_rtakeWhile]
  have hspacing : AllSpacing ((stripComments css).rtakeWhile isSpacing) :=
    fun c => List.mem_rtakeWhile_imp
  have hcode : Quoting.code.after (stripComments css) = .code := Stripping.quoting_after h.outside
  have hparens := h.parens
  generalize (stripComments css).rtakeWhile isSpacing = w at *
  rw [hsplit] at hcode hparens
  have hx := Quoting.code_after_of_plain (by decide) hspacing.allBlank hcode
  refine ⟨x, w, hsplit, hspacing, hx, ?_⟩
  rw [openAfter_append, hx] at hparens
  exact (openAfter_allBlank (by decide) (by decide) hspacing.allBlank .code _).symm.trans hparens

/-- No comment opens across the end of the sheet. -/
theorem EndsInBrace.stripComments_append {a : List Char} (h : EndsInBrace a) (b : List Char) :
    stripComments (a ++ b) = stripComments a ++ stripComments b := by
  obtain ⟨x, w, hsplit, hspacing, -⟩ := h.exists_close
  refine stripFrom_append h.outside ?_ b
  show (stripComments a).getLast? ≠ _
  rw [hsplit]
  intro hslash
  have hmem : '/' ∈ '}' :: w := by
    rw [List.getLast?_append, List.getLast?_cons] at hslash
    refine List.mem_of_mem_getLast? ?_
    rw [List.getLast?_cons]
    exact hslash
  rcases List.mem_cons.mp hmem with hbrace | hw
  · cases hbrace
  · exact absurd (hspacing _ hw) (by decide)

/-- Stylesheet white space before a text is not seen from its start. -/
theorem startsPlainly_append {w : List Char} (hw : AllSpacing w) {t : List Char} :
    StartsPlainly (w ++ t) ↔ StartsPlainly t := by
  rw [StartsPlainly, List.dropWhile_append_of_pos hw]
  exact Iff.rfl

/-- A sheet that ends in a brace has a start of its own. -/
theorem EndsInBrace.startsPlainly_append {a : List Char} (h : EndsInBrace a)
    (hstart : StartsPlainly (stripComments a)) (t : List Char) :
    StartsPlainly (stripComments a ++ t) := by
  obtain ⟨x, w, hsplit, -⟩ := h.exists_close
  have hne : (stripComments a).dropWhile isSpacing ≠ [] := by
    intro hnil
    have hbrace := List.dropWhile_eq_nil_iff.mp hnil '}' (by rw [hsplit]; simp)
    cases hbrace
  rw [StartsPlainly, List.dropWhile_append,
    if_neg (by rw [List.isEmpty_iff]; exact hne), List.head?_append_of_ne_nil _ hne]
  exact hstart

/-! ## Writing from the start -/

namespace Pen

/-- **White space before a plain start** is not seen. -/
theorem write_append_plain {w t : List Char} (hw : AllSpacing w)
    (ht : StartsPlainly t) : ({} : Pen).write (w ++ t) = ({} : Pen).write t := by
  have hhead : ∀ c, (t.dropWhile isSpacing).head? = some c → isSpacing c = false ∧ c ≠ ':' := by
    intro c hc
    refine ⟨?_, (ht c hc).1⟩
    have hnot := List.head?_dropWhile_not isSpacing t
    rw [hc] at hnot
    simpa using hnot
  -- both start with white space only
  have hlead : ∀ v : List Char, AllSpacing v →
      ({} : Pen).write (v ++ t.dropWhile isSpacing) =
        ({} : Pen).write (t.dropWhile isSpacing) := by
    intro v hv
    rw [write_spacing (p := {}) rfl hv]
    exact write_of_quiet (p := {}) rfl rfl hhead _
  have htake : AllSpacing (t.takeWhile isSpacing) :=
    fun c => List.mem_takeWhile_imp
  have h1 := hlead (w ++ t.takeWhile isSpacing) (List.forall_mem_append.mpr ⟨hw, htake⟩)
  have h2 := hlead (t.takeWhile isSpacing) htake
  rw [List.append_assoc, List.takeWhile_append_dropWhile] at h1
  rw [List.takeWhile_append_dropWhile] at h2
  rw [h1, h2]

/-- A plain start is written first. -/
theorem isBlank_head?_write {t : List Char} (ht : StartsPlainly t) :
    ∀ c, (({} : Pen).write t).head? = some c → isBlank c = false := by
  have hcore : StartsPlainly (t.dropWhile isSpacing) := by
    rw [StartsPlainly, List.dropWhile_idempotent]
    exact ht
  have hwrite := write_append_plain (w := t.takeWhile isSpacing)
    (fun c => List.mem_takeWhile_imp) hcore
  rw [List.takeWhile_append_dropWhile] at hwrite
  rw [hwrite]
  exact head?_write_of_quiet rfl rfl fun c hc => (ht c hc).2

end Pen

/-! ## Minifying -/

/-- **Minification goes sheet by sheet** after a sheet that ends in a brace. -/
theorem minifyChars_append {a b : List Char} (ha : EndsInBrace a)
    (hb : StartsPlainly (stripComments b)) :
    minifyChars (a ++ b) = minifyChars a ++ minifyChars b := by
  obtain ⟨x, w, hsplit, hw, hcode, hparens⟩ := ha.exists_close
  have hwrite : ∀ rest, ({} : Pen).write (x ++ '}' :: rest) =
      ({} : Pen).write (x ++ ['}']) ++ ({} : Pen).write rest := by
    intro rest
    rw [Pen.write_append_close (p := {}) hcode, hparens]
  obtain ⟨v, hv⟩ : ∃ v, ({} : Pen).write (x ++ ['}']) = v ++ ['}'] :=
    List.getLast?_eq_some_iff.mp (Pen.getLast?_write _ List.getLast?_concat (by decide))
  have hnothing : ({} : Pen).write w = [] := by
    have h := Pen.write_spacing (p := {}) rfl hw []
    rwa [List.append_nil] at h
  rw [minifyChars_eq_trim, minifyChars_eq_trim, minifyChars_eq_trim, ha.stripComments_append,
    hsplit, List.append_assoc, List.cons_append, hwrite (w ++ _), hwrite w, hv, hnothing,
    Pen.write_append_plain hw hb, List.append_assoc, List.append_nil, List.singleton_append]
  have hstart := trimStart_of_head (Pen.isBlank_head?_write hb)
  generalize ({} : Pen).write (stripComments b) = z at *
  rw [trim_concat (by decide), trim, trimStart_append_cons (by decide),
    trimEnd_append_cons (by decide), trim, hstart, List.append_assoc, List.singleton_append]

/-- **Minified sheets** one after the other. -/
theorem minify_append {a b : String} (ha : EndsInBrace a.toList)
    (hb : StartsPlainly (stripComments b.toList)) : minify (a ++ b) = minify a ++ minify b := by
  rw [minify, String.toList_append, minifyChars_append ha hb, String.ofList_append]
  rfl

/-- Nothing is left of a blank sheet. -/
theorem minify_of_blank {css : String} (h : isBlankText css = true) : minify css = "" := by
  obtain ⟨held, hwrite⟩ := minifyChars_eq css.toList
  have hblank : AllBlank (stripComments css.toList) := fun c hc =>
    allBlank_iff_all.mp h c ((stripFrom_sublist _ css.toList).subset hc)
  rw [minify, hwrite, trim_eq_nil_iff.mpr hblank]
  rfl

/-! ## Leads -/

/-- A lead of comments and stylesheet white space. -/
def IsLead (g : String) : Prop :=
  ∃ w, AllSpacing w ∧
    ∀ t, stripComments (g.toList ++ t) = w ++ stripComments t

theorem isLead_newline : IsLead "\n" :=
  ⟨['\n'], by decide, fun _ => rfl⟩

theorem isLead_comment {title : String} (h : '*' ∉ title.toList) :
    IsLead ("/*" ++ title ++ "*/") := by
  have hinside : ∀ (text t : List Char), '*' ∉ text →
      stripFrom .comment (text ++ '*' :: '/' :: t) = stripComments t := by
    intro text t htext
    induction text with
    | nil => rfl
    | cons c text ih =>
        obtain ⟨hc, htext⟩ := not_or.mp (mt List.mem_cons.mpr htext)
        rw [List.cons_append, stripFrom_comment fun hstar => hc hstar.1.symm, ih htext]
  refine ⟨[], List.forall_mem_nil _, fun t => ?_⟩
  rw [String.toList_append, String.toList_append, List.append_assoc, List.append_assoc]
  exact hinside title.toList t h

namespace IsLead

variable {g : String} (hg : IsLead g)

include hg

theorem append {g' : String} (hg' : IsLead g') : IsLead (g ++ g') := by
  obtain ⟨w, hw, hlead⟩ := hg
  obtain ⟨w', hw', hlead'⟩ := hg'
  refine ⟨w ++ w', List.forall_mem_append.mpr ⟨hw, hw'⟩, fun t => ?_⟩
  rw [String.toList_append, List.append_assoc, hlead, hlead', List.append_assoc]

theorem startsPlainly {t : String} (ht : StartsPlainly (stripComments t.toList)) :
    StartsPlainly (stripComments (g ++ t).toList) := by
  obtain ⟨w, hw, hlead⟩ := hg
  rw [String.toList_append, hlead]
  exact (startsPlainly_append hw).mpr ht

/-- **A lead vanishes.** -/
theorem minify_append {t : String} (ht : StartsPlainly (stripComments t.toList)) :
    minify (g ++ t) = minify t := by
  obtain ⟨w, hw, hlead⟩ := hg
  rw [minify, minify, minifyChars_eq_trim, minifyChars_eq_trim, String.toList_append, hlead,
    Pen.write_append_plain hw ht]

end IsLead

end PageLoom.Css
