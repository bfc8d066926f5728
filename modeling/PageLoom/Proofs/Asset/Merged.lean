import PageLoom.Proofs.Asset.Calls
import PageLoom.Proofs.Css.Appended
import PageLoom.Proofs.Css.Joined

/-!
# Merged stylesheets — minified as one, as if each stood alone

    The merged stylesheet is minified in one go, after the banners are put
    between the sheets.  A banner is a comment between line ends, of which
    nothing is left.  If every sheet is well ended, minification starts anew
    with each of them, so the result is the minified sheets one after the
    other (`merged_minified`).
-/

namespace PageLoom

open Text Css

/-- A stylesheet that is **well ended**: it is blank, or it ends in a closing
    brace and starts plainly. -/
def WellEnded (css : String) : Prop :=
  isBlankText css = true ∨
    EndsInBrace css.toList ∧ StartsPlainly (stripComments css.toList)

instance (css : String) : Decidable (WellEnded css) :=
  inferInstanceAs (Decidable (_ ∨ _))

/-! ## Under a banner -/

/-- **A sheet under a lead**, with a line end and other sheets after it. -/
theorem minify_under {g css rest : String} (hg : IsLead g)
    (hcss : css = "" ∨ EndsInBrace css.toList ∧ StartsPlainly (stripComments css.toList))
    (hrest : StartsPlainly (stripComments rest.toList)) :
    minify (g ++ css ++ "\n" ++ rest) = minify css ++ minify rest ∧
      StartsPlainly (stripComments (g ++ css ++ "\n" ++ rest).toList) := by
  have hline := isLead_newline.startsPlainly hrest
  have hsame := isLead_newline.minify_append hrest
  rw [String.append_assoc, String.append_assoc]
  rcases hcss with rfl | ⟨hends, hstarts⟩
  · have hnothing : minify "" = "" := rfl
    rw [String.empty_append, hnothing, String.empty_append, ← hsame]
    exact ⟨hg.minify_append hline, hg.startsPlainly hline⟩
  · have hplain : StartsPlainly (stripComments (css ++ ("\n" ++ rest)).toList) := by
      rw [String.toList_append, hends.stripComments_append]
      exact hends.startsPlainly_append hstarts _
    refine ⟨?_, hg.startsPlainly hplain⟩
    rw [hg.minify_append hplain, minify_append hends hline, hsame]

theorem isLead_globalBanner : IsLead "/* Global CSS */\n" := by
  have htitle : '*' ∉ " Global CSS ".toList := by decide
  have hsplit : "/* Global CSS */\n" = "/*" ++ " Global CSS " ++ "*/" ++ "\n" := by
    decide +kernel
  rw [hsplit]
  exact (isLead_comment htitle).append isLead_newline

namespace StyleEntry

/-- The text between the marks of the comment in a banner. -/
def title (e : StyleEntry) : String :=
  " " ++ e.kind.label ++ " " ++ toString e.id ++ " "

/-- No asterisk stands in a title. -/
theorem not_mem_title (e : StyleEntry) : '*' ∉ e.title.toList := by
  have hlabel : '*' ∉ e.kind.label.toList := by
    cases e.kind <;> decide
  have hdigits : '*' ∉ (toString e.id).toList := by
    intro hmem
    rw [Nat.toString_eq_repr, Nat.repr_eq_ofList_toDigits, String.toList_ofList] at hmem
    exact absurd (Nat.isDigit_of_mem_toDigits (by decide) (by decide) hmem) (by decide)
  simp only [title, String.toList_append, List.mem_append, not_or]
  exact ⟨⟨⟨⟨by decide, hlabel⟩, by decide⟩, hdigits⟩, by decide⟩

theorem banner_eq (e : StyleEntry) :
    e.banner = "\n" ++ ("/*" ++ e.title ++ "*/") ++ "\n" ++ e.css ++ "\n" := by
  simp [banner, title, ← String.toList_inj]

/-- An entry under its banner stands under a lead. -/
theorem isLead_banner (e : StyleEntry) : IsLead ("\n" ++ ("/*" ++ e.title ++ "*/") ++ "\n") :=
  (isLead_newline.append (isLead_comment e.not_mem_title)).append isLead_newline

end StyleEntry

namespace Styles

/-- **Banners vanish**, and each entry is minified by itself. -/
theorem minify_banners {entries : List StyleEntry}
    (h : ∀ e ∈ entries,
      e.css = "" ∨ EndsInBrace e.css.toList ∧ StartsPlainly (stripComments e.css.toList)) :
    minify (String.join (entries.map StyleEntry.banner)) =
        String.join (entries.map fun e => minify e.css) ∧
      StartsPlainly (stripComments (String.join (entries.map StyleEntry.banner)).toList) := by
  induction entries with
  | nil => exact ⟨rfl, by decide⟩
  | cons e entries ih =>
      obtain ⟨he, hentries⟩ := List.forall_mem_cons.mp h
      obtain ⟨hminified, hplain⟩ := ih hentries
      rw [List.map_cons, List.map_cons, String.join_cons, String.join_cons, e.banner_eq,
        ← hminified]
      exact minify_under e.isLead_banner he hplain

/-- A blank entry is empty: its sheet was not blank, and nothing is left of it in
    its scope. -/
theorem css_eq_empty_of_blank {calls : List Call} {e : StyleEntry}
    (he : e ∈ (afterCalls calls).entries) (hblank : isBlankText e.css = true) : e.css = "" := by
  rw [entries_afterCalls] at he
  obtain ⟨s, hs, rfl⟩ := List.mem_map.mp (mem_of_mem_firstOfEach he)
  have hstyle := (List.mem_filter.mp hs).2
  rw [Source.styleEntry] at hblank ⊢
  cases hscope : s.scope with
  | some cls =>
      rw [hscope] at hblank
      exact scope_eq_empty_of_blank hblank
  | none =>
      rw [hscope] at hblank
      rw [Source.hasStyle, hblank] at hstyle
      cases hstyle

/-- **The merged stylesheet, minified**, is the minified global stylesheet and the
    minified entries in their order. -/
theorem merged_minified {calls : List Call} {globalCss : String} (hglobal : WellEnded globalCss)
    (hentries : ∀ e ∈ (afterCalls calls).entries, WellEnded e.css) :
    (afterCalls calls).merged globalCss true =
      minify globalCss ++ String.join ((afterCalls calls).entries.map fun e => minify e.css) := by
  obtain ⟨hminified, hplain⟩ := minify_banners fun e he =>
    (hentries e he).imp_left (css_eq_empty_of_blank he)
  rw [merged, if_pos rfl, ← hminified]
  cases hblank : isBlankText globalCss with
  | true =>
      rw [if_pos rfl, minify_of_blank hblank, String.empty_append, String.empty_append]
  | false =>
      have hends := hglobal.resolve_left (by rw [hblank]; exact Bool.false_ne_true)
      rw [if_neg Bool.false_ne_true]
      exact (minify_under isLead_globalBanner (.inr hends) hplain).1

/-- A scoped entry, one of which nothing is left in its scope, and one that ends
    with a comment. -/
theorem merged_minified_entries :
    (afterCalls [.add "a \x7bb: c( + )\x7d" .block 1 (some "p"), .add "d" .override 2 (some "p"),
        .add "@x ;e>f\x7bg:\"\x7d\"; \x7d /**/" .layout 3 none]).merged " /* : */h\x7b\x7d " true =
      "h\x7b\x7d" ++ (".p a\x7bb:c( + )\x7d" ++ ("" ++ "@x;e>f\x7bg:\"\x7d\"\x7d")) := by
  rw [merged_minified (by decide +kernel) (by decide +kernel)]
  decide +kernel

end Styles

end PageLoom
