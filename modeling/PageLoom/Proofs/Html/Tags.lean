import PageLoom.Html.Tag
import PageLoom.Proofs.Text.Cut
import PageLoom.Proofs.Text.Words

/-!
# Plain text — what is left of markup holds no tag

    A text is free of tags when no `>` stands anywhere after a `<`
    (`TagFree`); this is a matter of which of these two characters come in
    which order, so it passes to every text with fewer characters and does not
    depend on white space (`TagFree.sublist`, `tagFree_filter`).

    Dropping tags leaves such a text, whatever the text was: a `<` is kept only
    where no `>` follows at all (`tagFree_dropTags`).  In such a text there is
    neither an element of code nor a tag (`dropCode_of_tagFree`,
    `dropTags_of_tagFree`), so plain text is what it is again
    (`stripTags_stripTags`).  The first words of a text are words of its plain
    text, the last of them with an ellipsis if there are more
    (`firstWords_eq`), and so they are their own first words
    (`firstWords_firstWords`).
-/

namespace PageLoom.Html

open Text

/-- **Free of tags**: no `>` stands anywhere after a `<`. -/
def TagFree (cs : List Char) : Prop :=
  ∀ before after, cs = before ++ '<' :: after → '>' ∉ after

theorem tagFree_cons {c : Char} {cs : List Char} :
    TagFree (c :: cs) ↔ (c = '<' → '>' ∉ cs) ∧ TagFree cs := by
  constructor
  · intro h
    refine ⟨?_, fun before after hcs => h (c :: before) after (congrArg (c :: ·) hcs)⟩
    rintro rfl
    exact h [] cs rfl
  · rintro ⟨hc, hcs⟩ before after hsplit
    cases before with
    | nil =>
        obtain ⟨rfl, rfl⟩ := List.cons.inj hsplit
        exact hc rfl
    | cons d before => exact hcs before after (List.cons.inj hsplit).2

theorem tagFree_of_not_mem {cs : List Char} (h : '>' ∉ cs) : TagFree cs := by
  rintro before after rfl hmem
  exact h (List.mem_append_right _ (List.mem_cons_of_mem _ hmem))

/-- Free of tags, by the order of the two brackets. -/
theorem tagFree_iff {cs : List Char} : TagFree cs ↔ ¬['<', '>'].Sublist cs := by
  induction cs with
  | nil => exact iff_of_true (tagFree_of_not_mem List.not_mem_nil) fun h => nomatch h
  | cons c cs ih =>
      rw [tagFree_cons, ih, List.sublist_cons_iff, not_or, and_comm]
      refine and_congr_right fun _ => ⟨fun h => ?_, fun h hc hmem => ?_⟩
      · rintro ⟨rest, hrest, hsub⟩
        obtain ⟨hc, rfl⟩ := List.cons.inj hrest
        exact h hc.symm (List.singleton_sublist.mp hsub)
      · exact h ⟨['>'], congrArg (· :: ['>']) hc.symm, List.singleton_sublist.mpr hmem⟩

/-- **A part of a text free of tags** is free of them. -/
theorem TagFree.sublist {cs kept : List Char} (h : TagFree cs) (hkept : kept.Sublist cs) :
    TagFree kept :=
  tagFree_iff.mpr fun hsub => tagFree_iff.mp h (hsub.trans hkept)

/-- White space does not matter for tags. -/
theorem tagFree_filter {cs : List Char} : TagFree (cs.filter (!isBlank ·)) ↔ TagFree cs := by
  refine ⟨fun h => tagFree_iff.mpr fun hsub => ?_, fun h => h.sublist List.filter_sublist⟩
  exact tagFree_iff.mp h (hsub.filter (!isBlank ·))

/-- What cannot close a tag may follow. -/
theorem TagFree.append {cs more : List Char} (h : TagFree cs) (hmore : '>' ∉ more) :
    TagFree (cs ++ more) := by
  induction cs with
  | nil => exact tagFree_of_not_mem hmore
  | cons c cs ih =>
      obtain ⟨hc, hcs⟩ := tagFree_cons.mp h
      refine tagFree_cons.mpr ⟨fun hopen hmem => ?_, ih hcs⟩
      exact (List.mem_append.mp hmem).elim (hc hopen) hmore

theorem trim_sublist (cs : List Char) : (trim cs).Sublist cs := by
  obtain ⟨a, b, -, -, hcs, -⟩ := exists_trim cs
  have hinfix : trim cs <:+: cs := ⟨a, b, hcs.symm⟩
  exact hinfix.sublist

/-! ## Tags -/

/-- **No tag is left**: a `<` stays only where no `>` follows. -/
theorem tagFree_dropTags (cs : List Char) : TagFree (dropTags cs) := by
  induction cs using dropTags.induct with
  | case1 =>
      rw [dropTags]
      exact tagFree_of_not_mem List.not_mem_nil
  | case2 cs before rest hcut ih =>
      rw [dropTags, if_pos rfl]
      split
      · rename_i before' rest' hcut'
        obtain ⟨-, rfl⟩ := Prod.mk.inj (Option.some.inj (hcut.symm.trans hcut'))
        exact ih
      · rename_i hnone
        rw [hcut] at hnone
        cases hnone
  | case3 cs hcut =>
      rw [dropTags, if_pos rfl]
      split
      · rename_i hcut'
        rw [hcut] at hcut'
        cases hcut'
      · exact tagFree_cons.mpr ⟨fun _ => cutAtChar_eq_none_iff.mp hcut,
          tagFree_of_not_mem (cutAtChar_eq_none_iff.mp hcut)⟩
  | case4 c cs hc ih =>
      rw [dropTags, if_neg hc]
      exact tagFree_cons.mpr ⟨fun h => absurd h hc, ih⟩

/-- **A text free of tags** has none to drop. -/
theorem dropTags_of_tagFree {cs : List Char} (h : TagFree cs) : dropTags cs = cs := by
  induction cs with
  | nil => rw [dropTags]
  | cons c cs ih =>
      obtain ⟨hc, hcs⟩ := tagFree_cons.mp h
      rw [dropTags]
      by_cases hopen : c = '<'
      · rw [if_pos hopen]
        split
        · rename_i before rest hcut
          refine absurd ?_ (hc hopen)
          rw [(cutAtChar_eq_some_iff.mp hcut).1]
          exact List.mem_append_right _ List.mem_cons_self
        · rfl
      · rw [if_neg hopen, ih hcs]

/-! ## Elements of code -/

theorem suffix_of_afterName {name cs rest : List Char} (h : afterName name cs = some rest) :
    rest <:+ cs := by
  induction name generalizing cs with
  | nil => exact Option.some.inj h ▸ List.suffix_refl _
  | cons x name ih =>
      cases cs with
      | nil => cases h
      | cons c cs =>
          rw [afterName] at h
          obtain ⟨-, h⟩ := Option.ite_none_right_eq_some.mp h
          exact (ih h).trans (List.suffix_cons c cs)

/-- A closing tag closes. -/
theorem mem_of_afterClosing {name cs rest : List Char} (h : afterClosing name cs = some rest) :
    '>' ∈ cs := by
  rw [afterClosing.eq_def] at h
  split at h
  · rename_i tail
    split at h
    · cases h
    · rename_i after hname
      split at h
      · rename_i body htrim
        -- what follows the name and white space starts with the bracket
        have hafter : trimStart after <:+ after := List.dropWhile_suffix _
        have hmem : '>' ∈ trimStart after := htrim ▸ List.mem_cons_self
        have htail := (suffix_of_afterName hname).subset (hafter.subset hmem)
        exact List.mem_cons_of_mem _ (List.mem_cons_of_mem _ htail)
      · cases h
  · cases h

theorem mem_of_afterFirstClosing {name cs rest : List Char}
    (h : afterFirstClosing name cs = some rest) : '>' ∈ cs := by
  induction cs with
  | nil => cases h
  | cons c cs ih =>
      rw [afterFirstClosing] at h
      split at h
      · rename_i hclosing
        exact mem_of_afterClosing hclosing
      · exact List.mem_cons_of_mem _ (ih h)

/-- **An element** opens with a `<` and has a `>` after it. -/
theorem exists_of_afterElement {name cs rest : List Char} (h : afterElement name cs = some rest) :
    ∃ tail, cs = '<' :: tail ∧ '>' ∈ tail := by
  rw [afterElement.eq_def] at h
  split at h
  · rename_i tail
    split at h
    · cases h
    · rename_i after hname
      obtain ⟨-, h⟩ := Option.ite_none_right_eq_some.mp h
      exact ⟨tail, rfl, (suffix_of_afterName hname).subset (mem_of_afterFirstClosing h)⟩
  · cases h

theorem exists_of_afterCode {cs rest : List Char} (h : afterCode cs = some rest) :
    ∃ tail, cs = '<' :: tail ∧ '>' ∈ tail := by
  rw [afterCode] at h
  split at h
  · rename_i helement
    exact exists_of_afterElement helement
  · exact exists_of_afterElement h

/-- **A text free of tags** has no element of code. -/
theorem dropCode_of_tagFree {cs : List Char} (h : TagFree cs) : dropCode cs = cs := by
  induction cs with
  | nil => rw [dropCode]
  | cons c cs ih =>
      obtain ⟨hc, hcs⟩ := tagFree_cons.mp h
      rw [dropCode]
      split
      · rename_i rest hcode
        obtain ⟨tail, htail, hmem⟩ := exists_of_afterCode hcode
        obtain ⟨hopen, rfl⟩ := List.cons.inj htail
        exact absurd hmem (hc hopen)
      · rw [ih hcs]

/-! ## Plain text -/

/-- **Plain text is free of tags.** -/
theorem tagFree_stripTags (cs : List Char) : TagFree (stripTags cs) :=
  (tagFree_dropTags _).sublist (trim_sublist _)

/-- **A text free of tags is plain** but for the white space at its ends. -/
theorem stripTags_of_tagFree {cs : List Char} (h : TagFree cs) : stripTags cs = trim cs := by
  rw [stripTags, dropCode_of_tagFree h, dropTags_of_tagFree h]

/-- **Plain text stays as it is.** -/
theorem stripTags_stripTags (cs : List Char) : stripTags (stripTags cs) = stripTags cs := by
  obtain ⟨-, -, -, -, -, hsolid⟩ := exists_trim (dropTags (dropCode cs))
  rw [stripTags_of_tagFree (tagFree_stripTags cs)]
  exact trim_of_solid hsolid

/-! ## First words -/

/-- Words with an ellipsis after the last. -/
def withEllipsis : List (List Char) → List (List Char)
  | [] => []
  | [w] => [w ++ ellipsis]
  | w :: v :: ws => w :: withEllipsis (v :: ws)

/-- **The first words of a row**, with an ellipsis when there are more. -/
def keptWords (count : Nat) (ws : List (List Char)) : List (List Char) :=
  if ws.length > count then withEllipsis (ws.take count) else ws

theorem length_withEllipsis (ws : List (List Char)) : (withEllipsis ws).length = ws.length := by
  induction ws using withEllipsis.induct with
  | case1 => rfl
  | case2 w => rfl
  | case3 w v ws ih => exact congrArg Nat.succ ih

/-- The ellipsis follows the last word without a space. -/
theorem joinWords_withEllipsis {ws : List (List Char)} (h : ws ≠ []) :
    joinWords (withEllipsis ws) = joinWords ws ++ ellipsis := by
  induction ws using withEllipsis.induct with
  | case1 => exact absurd rfl h
  | case2 w => rw [withEllipsis, joinWords_singleton, joinWords_singleton]
  | case3 w v ws ih =>
      obtain ⟨u, us, hmore⟩ : ∃ u us, withEllipsis (v :: ws) = u :: us :=
        List.exists_cons_of_length_eq_add_one (length_withEllipsis (v :: ws))
      rw [withEllipsis, hmore, joinWords_cons_cons, ← hmore, ih (List.cons_ne_nil _ _),
        joinWords_cons_cons, List.append_assoc]
      rfl

theorem isWord_of_mem_withEllipsis {ws : List (List Char)} (h : ∀ w ∈ ws, IsWord w) :
    ∀ w ∈ withEllipsis ws, IsWord w := by
  induction ws using withEllipsis.induct with
  | case1 => exact h
  | case2 w =>
      obtain ⟨hne, hsolid⟩ := List.forall_mem_singleton.mp h
      have hall : ellipsis.all (!isBlank ·) = true := by decide
      have hellipsis : ∀ c ∈ ellipsis, isBlank c = false := by
        simpa only [List.all_eq_true, Bool.not_eq_true'] using hall
      refine List.forall_mem_singleton.mpr ⟨fun h => hne (List.append_eq_nil_iff.mp h).1, ?_⟩
      exact List.forall_mem_append.mpr ⟨hsolid, hellipsis⟩
  | case3 w v ws ih =>
      obtain ⟨hw, hws⟩ := List.forall_mem_cons.mp h
      exact List.forall_mem_cons.mpr ⟨hw, ih hws⟩

/-- No more words than asked for are kept. -/
theorem length_keptWords (count : Nat) (ws : List (List Char)) :
    (keptWords count ws).length ≤ count := by
  rw [keptWords]
  split
  · rw [length_withEllipsis, List.length_take]
    exact Nat.min_le_left _ _
  · omega

theorem isWord_of_mem_keptWords (count : Nat) {ws : List (List Char)} (h : ∀ w ∈ ws, IsWord w) :
    ∀ w ∈ keptWords count ws, IsWord w := by
  rw [keptWords]
  split
  · exact isWord_of_mem_withEllipsis fun w hw => h w (List.mem_of_mem_take hw)
  · exact h

theorem take_ne_nil {count : Nat} (hcount : 1 ≤ count) {ws : List (List Char)}
    (h : ws.length > count) : ws.take count ≠ [] := by
  refine List.ne_nil_of_length_pos ?_
  rw [List.length_take]
  omega

/-- **The first words of a text** are those of its plain text. -/
theorem firstWords_eq {count : Nat} (hcount : 1 ≤ count) (text : String) :
    firstWords count text =
      String.ofList (joinWords (keptWords count (words (stripTags text.toList)))) := by
  rw [firstWords]
  generalize words (stripTags text.toList) = ws
  show String.ofList (if ws.length > count then joinWords (ws.take count) ++ ellipsis
    else joinWords (ws.take count)) = _
  rw [keptWords]
  split
  · rename_i hmore
    rw [joinWords_withEllipsis (take_ne_nil hcount hmore)]
  · rw [List.take_of_length_le (by omega)]

section

variable {count : Nat} (hcount : 1 ≤ count) (text : String)
include hcount

/-- The words of the first words. -/
theorem words_firstWords :
    words (firstWords count text).toList = keptWords count (words (stripTags text.toList)) := by
  rw [firstWords_eq hcount, String.toList_ofList]
  exact words_joinWords (isWord_of_mem_keptWords count fun w => isWord_of_mem_words)

/-- **The first words are free of tags.** -/
theorem tagFree_firstWords : TagFree (firstWords count text).toList := by
  have hwords : ∀ w ∈ words (stripTags text.toList), IsWord w := fun w => isWord_of_mem_words
  have hplain : TagFree (words (stripTags text.toList)).flatten := by
    rw [flatten_words, tagFree_filter]
    exact tagFree_stripTags _
  rw [firstWords_eq hcount, String.toList_ofList, keptWords]
  split
  · rename_i hmore
    -- words in the middle are left out, and no ellipsis closes a tag
    have htake : ∀ w ∈ (words (stripTags text.toList)).take count, IsWord w :=
      fun w hw => hwords w (List.mem_of_mem_take hw)
    rw [joinWords_withEllipsis (take_ne_nil hcount hmore)]
    refine TagFree.append ?_ (by decide)
    rw [← tagFree_filter, filter_joinWords htake]
    rw [← List.take_append_drop count (words (stripTags text.toList)),
      List.flatten_append] at hplain
    exact hplain.sublist (List.sublist_append_left _ _)
  · rw [← tagFree_filter, filter_joinWords hwords]
    exact hplain

/-- **First words are their own first words.** -/
theorem firstWords_firstWords :
    firstWords count (firstWords count text) = firstWords count text := by
  have hwords := words_firstWords hcount text
  have hkept : keptWords count (words (firstWords count text).toList) =
      words (firstWords count text).toList := by
    rw [hwords]
    exact if_neg (Nat.not_lt.mpr (length_keptWords count _))
  rw [firstWords_eq hcount (firstWords count text),
    stripTags_of_tagFree (tagFree_firstWords hcount text), words_trim, hkept, hwords,
    ← firstWords_eq hcount]

end

end PageLoom.Html
