import PageLoom.Proofs.Css.Minified
import PageLoom.Proofs.Css.ScopedRun

/-!
# Soundness — what the passes make of sound stylesheets

    Scoping cuts a sheet at braces and semicolons, strings skipped but not
    parentheses and square brackets, and a selector list at the first brace,
    strings not skipped.  Where these cuts are the tokens' own (`Orderly`),
    every piece of a sound sheet is sound alone (`reads_closed`), and what
    scoping writes for it is (`closed_piece_reads`, `open_piece_reads`).
    Removing comments and minification only need that the sheet is read
    like its tokens (`Tame`).
-/

namespace PageLoom.Css

open Text Token

/-! ## Orderly sheets -/

/-- The pieces of a sheet at every depth: its own, and those in the blocks of
    its grouping at-rules. -/
def piecesOf (css : List Char) : List (List Char) :=
  (segments css).attach.flatMap fun ⟨segment, _⟩ =>
    let text := trim segment.text
    match _cut : cutAtBrace text with
    | none => [text]
    | some (_, after) =>
        if text.head? = some '@' && segment.isClosed && isGrouping text then
          text :: piecesOf (withoutClose after)
        else [text]
termination_by css.length
decreasing_by
  have h1 := length_of_mem_segments ‹_›
  have h2 : text.length ≤ segment.text.length := length_trim_le _
  have h3 := length_of_cutAtBrace _cut
  have h4 := length_withoutClose_le after
  omega

/-- Whether a piece closes its parentheses and square brackets, and strings
    before the brace at which scoping cuts it. -/
def Orderly (piece : List Char) : Prop :=
  bracketLevel .code 0 piece = 0 ∧
    ∀ cut ∈ cutAtBrace piece, (piece.head? = some '@' → isGrouping piece = true) →
      Quoting.code.after cut.1 = .code

instance (piece : List Char) : Decidable (Orderly piece) :=
  inferInstanceAs (Decidable (_ ∧ _))

/-- **Orderly sheets**: all pieces are orderly. -/
def Tidy (css : List Char) : Prop :=
  ∀ piece ∈ piecesOf css, Orderly piece

instance (css : List Char) : Decidable (Tidy css) :=
  List.decidableBAll _ _

/-- The pieces in a trimmed piece; `closed` tells whether it ends where it
    should. -/
def piecesIn (closed : Bool) (text : List Char) : List (List Char) :=
  match cutAtBrace text with
  | none => [text]
  | some (_, after) =>
      if text.head? = some '@' && closed && isGrouping text then
        text :: piecesOf (withoutClose after)
      else [text]

theorem piecesOf_eq (css : List Char) :
    piecesOf css = (segments css).flatMap fun s => piecesIn s.isClosed (trim s.text) := by
  rw [piecesOf]
  conv => rhs; rw [← List.attach_map_subtype_val (segments css), List.flatMap_map]
  refine congrArg (List.flatMap · _) (funext fun s => ?_)
  show _ = piecesIn s.val.isClosed (trim s.val.text)
  rw [piecesIn]
  dsimp only
  split <;> rename_i h <;> rw [h]

/-- A piece is one of its pieces. -/
theorem mem_piecesIn (closed : Bool) (text : List Char) : text ∈ piecesIn closed text := by
  rw [piecesIn]
  split
  · exact List.mem_singleton_self text
  · split
    · exact List.mem_cons_self
    · exact List.mem_singleton_self text

/-- The pieces of the block of a grouping at-rule. -/
theorem tidy_of_group {before after : List Char} (hbefore : '{' ∉ before)
    (hat : (before ++ '{' :: after).head? = some '@')
    (hgroup : isGrouping (before ++ '{' :: after) = true)
    (h : ∀ piece ∈ piecesIn true (before ++ '{' :: after), Orderly piece) :
    Tidy (withoutClose after) := by
  intro piece hpiece
  refine h piece ?_
  have hcut : cutAtBrace (before ++ '{' :: after) = some (before, after) :=
    cutAtChar_eq_some_iff.mpr ⟨rfl, hbefore⟩
  rw [piecesIn, hcut]
  dsimp only
  rw [hat, hgroup]
  exact List.mem_cons_of_mem _ hpiece

/-- **A tidy sheet with a cut.** -/
theorem tidy_of_cut {u rest : List Char} {n : Nat} {c : Char} (hu : Quoting.code.after u = .code)
    (hlevel : levelAfter braces .code 0 u = some n) (hc : braces n c = none)
    (h : Tidy (u ++ c :: rest)) :
    (∀ piece ∈ piecesIn true (trim (u ++ [c])), Orderly piece) ∧ Tidy rest := by
  rw [Tidy, piecesOf_eq, segments_of_cut hu hlevel hc, List.flatMap_cons, ← piecesOf_eq,
    isClosed_pieceAt, text_pieceAt] at h
  exact List.forall_mem_append.mp h

/-- **A tidy sheet without a cut** is one piece. -/
theorem orderly_of_uncut {t : List Char} {n : Nat} (hlevel : levelAfter braces .code 0 t = some n)
    (hblank : ¬AllBlank t) (h : Tidy t) : Orderly (trim t) := by
  rw [Tidy, piecesOf_eq, segments_of_uncut hlevel, lastPiece,
    if_neg (fun hall => hblank (allBlank_iff_all.mp hall))] at h
  split at h <;> exact h _ (List.mem_flatMap.mpr ⟨_, List.mem_singleton_self _, mem_piecesIn _ _⟩)

/-- An orderly rule or grouping at-rule closes the strings of its heading. -/
theorem Orderly.heading {before after : List Char} (h : Orderly (before ++ '{' :: after))
    (hbefore : '{' ∉ before) (hkind : (before ++ '{' :: after).head? = some '@' →
      isGrouping (before ++ '{' :: after) = true) : Quoting.code.after before = .code :=
  h.2 (before, after) (cutAtChar_eq_some_iff.mpr ⟨rfl, hbefore⟩) hkind

/-! ## Closed pieces -/

/-- **After an orderly piece that closes, a reader starts anew.** -/
theorem reads_closed {v : List Char} {n : Nat} {c : Char} {k : Lexing}
    (hreads : Reads {} (v ++ [c]) k) (hv : Quoting.code.after v = .code)
    (hlevel : levelAfter braces .code 0 v = some n) (hc : braces n c = none)
    (hbrackets : bracketLevel .code 0 (v ++ [c]) = 0) : k = {} := by
  have hks := hreads.settled (settled_code _ _)
  have hothers : others k.stack = 0 := (hreads.others (settled_code _ _)).trans hbrackets
  obtain ⟨l, hl, hlast⟩ := hreads.exists_of_append
  have hls := hl.settled (settled_code _ _)
  have hcode : l.mode.quoting = .code := (hl.quoting (settled_code _ _)).trans hv
  have hcurlies : curlies l.stack = n := hl.curlies (settled_code _ _) hlevel
  cases hlast with
  | cons _ hnext _ hnil =>
      cases hnil
      obtain ⟨hmode, hstack⟩ := (Lexing.next_iff hls.outside).mp hnext
      rw [if_pos hcode] at hstack
      -- the cut is the brace of the only open block, or a semicolon outside blocks
      have hplain : isQuote c = false ∧ curlies k.stack = 0 ∧ ∀ r, Recent.next r c = .fresh := by
        rcases braces_eq_none_iff.mp hc with ⟨rfl, hn⟩ | ⟨rfl, rfl⟩
        · refine ⟨rfl, ?_, fun r => rfl⟩
          rcases turn_cases hstack with ⟨b, hb, -⟩ | ⟨b, hb, heq⟩ | ⟨hb, -⟩
          · cases b <;> cases hb
          · cases b with
            | curly =>
                rw [heq, curlies, List.count_cons_self] at hcurlies
                rw [curlies]
                omega
            | square => cases hb
            | round => cases hb
          · exact absurd (by decide) hb
        · refine ⟨rfl, ?_, fun r => rfl⟩
          rw [turn_other (by decide), Option.some.injEq] at hstack
          rw [← hstack]
          exact hcurlies
      obtain ⟨hquote, hcount, hfresh⟩ := hplain
      have hquoting : k.mode.quoting = .code := by
        rw [quoting_next hls.proper hls.outside hmode, hcode]
        exact Quoting.next_code_of_not_quote hquote
      obtain ⟨r, rfl⟩ := hks.eq_code hquoting (eq_nil_of_counts hcount hothers)
      rcases recent_of_next hmode with rfl | ⟨r', -, rfl⟩
      · rfl
      · rw [hfresh]

/-- What is to be shown of a text: its scoped sheet is read when the text is,
    and leaves no string and no bracket open when the text leaves none. -/
def ScopedReads (cls t : List Char) : Prop :=
  ∀ l, Reads {} t l → ∃ l', Reads {} (sheetText cls (itemsOf t)) l' ∧ (l.Outside → l'.Outside)

/-- **The parts of a closed block** leave no string and no bracket open. -/
theorem exists_parts {before core : List Char} (hcode : Quoting.code.after before = .code)
    (hcore : levelAfter braces .code 1 core = some 1)
    (hreads : Reads {} (before ++ '{' :: core ++ ['}']) {}) :
    ∃ k l, Reads {} before k ∧ k.Outside ∧ Reads {} core l ∧ l.Outside := by
  obtain ⟨w, hw, hlast⟩ := hreads.exists_of_append
  obtain ⟨k, l, hk, hquoting, hl, rfl⟩ := hw.exists_block hcode hcore
  have hls := hl.settled (settled_code _ _)
  have hstacks : l.mode.quoting = .code ∧ l.stack = [] ∧ k.stack = [] := by
    cases hlast with
    | cons _ hnext _ hnil =>
        cases hnil
        obtain ⟨-, hstack⟩ := (Lexing.next_iff (l := l.within _) hls.outside).mp hnext
        split at hstack
        · rename_i hcode'
          have hlength : (l.stack ++ Bracket.curly :: k.stack).length = 1 := by
            rcases turn_cases hstack with ⟨b, -, heq⟩ | ⟨b, -, heq⟩ | ⟨hb, -⟩
            · cases heq
            · exact congrArg List.length heq
            · exact absurd (by decide) hb
          rw [List.length_append, List.length_cons] at hlength
          refine ⟨hcode', List.length_eq_zero_iff.mp ?_, List.length_eq_zero_iff.mp ?_⟩ <;> omega
        · -- a string would keep the brace open
          exact absurd hstack.symm (by simp [Lexing.within])
  obtain ⟨hcode', hlstack, hkstack⟩ := hstacks
  exact ⟨k, l, hk, (hk.settled (settled_code _ _)).eq_code hquoting hkstack, hl,
    hls.eq_code hcode' hlstack⟩

/-- A block that closes its parentheses and square brackets can be closed, also
    once a brace at its end is left out. -/
theorem Reads.exists_closable {t : List Char} {l : Lexing} (h : Reads {} t l)
    (hothers : Css.others l.stack = 0) : ∃ l', Reads {} (withoutClose t) l' ∧ l'.Closable := by
  have hls := h.settled (settled_code _ _)
  by_cases hlast : t.getLast? = some '}'
  · obtain ⟨core, rfl⟩ := List.getLast?_eq_some_iff.mp hlast
    rw [withoutClose_close]
    obtain ⟨k, hk, hclose⟩ := h.exists_of_append
    have hks := hk.settled (settled_code _ _)
    refine ⟨k, hk, hks, ?_, ?_⟩
    · cases hclose with
      | cons hadmits _ _ _ => exact Mode.not_url_of_brace (Or.inr rfl) hadmits
    · intro hcode
      cases hclose with
      | cons _ hnext _ _ =>
          obtain ⟨-, hstack⟩ := (Lexing.next_iff hks.outside).mp hnext
          rw [if_pos hcode] at hstack
          rcases turn_cases hstack with ⟨b, hb, -⟩ | ⟨b, hb, heq⟩ | ⟨hb, -⟩
          · cases b <;> cases hb
          · rw [heq]
            cases b with
            | curly => rfl
            | square => cases hb
            | round => cases hb
          · exact absurd (by decide) hb
  · have hkept : withoutClose t = t := if_neg hlast
    rw [hkept]
    have hcurly : (l.stack ++ [Bracket.curly]).head? = some .curly := by
      cases hstack : l.stack with
      | nil => rfl
      | cons b stack =>
          rw [hstack] at hothers
          cases b with
          | curly => rfl
          | square => exact absurd hothers (by simp [Css.others])
          | round => exact absurd hothers (by simp [Css.others])
    refine ⟨l, h, hls, ?_, fun _ => hcurly⟩
    cases hurl : l.mode.isUrl with
    | false => rfl
    | true =>
        -- the url would be inside a round bracket
        obtain ⟨stack, hstack⟩ := List.head?_eq_some_iff.mp (hls.url hurl)
        rw [hstack] at hcurly
        cases hcurly

/-- Outside strings and brackets a block can be closed. -/
theorem Lexing.Outside.closable {l : Lexing} (h : l.Outside) : l.Closable := by
  obtain ⟨r, rfl⟩ := h
  exact ⟨settled_code _ _, rfl, fun _ => rfl⟩

theorem Reads.trim_outside {t : List Char} {l : Lexing} (h : Reads {} t l) (hl : l.Outside) :
    ∃ l', Reads {} (Text.trim t) l' ∧ l'.Outside := by
  obtain ⟨r, rfl⟩ := hl
  obtain ⟨r', hr⟩ := h.exists_trim
  exact ⟨_, hr, r', rfl⟩

section Piece

variable {cls : List Char} (hcls : IsScopeName cls)

include hcls

/-- **A closed piece** is read after scoping when it is before. -/
theorem closed_piece_reads {v : List Char} {n : Nat} {c : Char}
    (hv : Quoting.code.after v = .code) (hlevel : levelAfter braces .code 0 v = some n)
    (hc : braces n c = none) (ih : ∀ t, t.length < v.length → Tidy t → ScopedReads cls t)
    (hreads : Reads {} (v ++ [c]) {})
    (horderly : ∀ piece ∈ piecesIn true (v ++ [c]), Orderly piece) :
    ∃ l, Reads {} (sheetText cls (readItem true (v ++ [c])).toList) l ∧ l.Outside := by
  have hpiece := horderly _ (mem_piecesIn true (v ++ [c]))
  -- a rule and a grouping at-rule have a block that closes
  have hparts : ∀ {before core : List Char}, HasBlock v before core n →
      Quoting.code.after before = .code →
      c = '}' ∧ ∃ k l, Reads {} before k ∧ k.Outside ∧ Reads {} core l ∧ l.Outside := by
    intro before core hblock hcode
    obtain ⟨rfl, hwhole⟩ := hblock.whole hv hc hcode
    rw [hblock.split] at hreads
    exact ⟨rfl, exists_parts hcode hwhole.2 hreads⟩
  have hread := closedRead hlevel hc
  generalize readItem true (v ++ [c]) = item at *
  cases hread with
  | nothing => exact ⟨{}, .nil _, outside_start⟩
  | verbatim _ _ =>
      rw [Option.toList_some, sheetText_singleton]
      exact ⟨{}, hreads, outside_start⟩
  | @group before core hblock hgroup =>
      obtain ⟨hat, hname⟩ := hgroup
      rw [hblock.split_concat] at hat hname hpiece horderly
      have htidy := tidy_of_group hblock.first hat hname horderly
      obtain ⟨rfl, k, l, hk, hkout, hl, hlout⟩ :=
        hparts hblock (hpiece.heading hblock.first fun _ => hname)
      rw [withoutClose_close] at htidy ⊢
      obtain ⟨k', hk', hkout'⟩ := hk.trim_outside hkout
      obtain ⟨l', hl', hlout'⟩ := ih core hblock.length_lt htidy l hl
      exact reads_scopedGroup hk' hkout' hl' (hlout' hlout)
  | @rule before core hblock hat =>
      rw [hblock.split_concat] at hat hpiece
      obtain ⟨rfl, k, l, hk, hkout, hl, hlout⟩ :=
        hparts hblock (hpiece.heading hblock.first fun h => absurd h hat)
      rw [withoutClose_close]
      obtain ⟨l', hl', hlout'⟩ := hl.trim_outside hlout
      obtain ⟨z, hz, hzout⟩ := reads_scopedRule hcls hk hkout hblock.flat hl' hlout'.closable
      exact ⟨z, hz, hzout hlout'⟩

/-- **An open piece** is read after scoping when it is before. -/
theorem open_piece_reads {t : List Char} {n : Nat} {l : Lexing}
    (hlevel : levelAfter braces .code 0 t = some n) (hreads : Reads {} t l)
    (horderly : Orderly t) :
    ∃ l', Reads {} (sheetText cls (readItem false t).toList) l' ∧ (l.Outside → l'.Outside) := by
  have hread := openRead hlevel
  generalize readItem false t = item at *
  cases hread with
  | nothing => exact ⟨{}, .nil _, fun _ => outside_start⟩
  | verbatim _ =>
      rw [Option.toList_some, sheetText_singleton]
      exact ⟨l, hreads, id⟩
  | @rule before core hblock hat =>
      have hopen := hblock.level
      have hothers := (hreads.others (settled_code _ _)).trans horderly.1
      rw [hblock.split] at hat horderly hreads
      have hcode := horderly.heading hblock.first fun h => absurd h hat
      rw [hcode] at hopen
      obtain ⟨k, la, hk, hquoting, hla, rfl⟩ := hreads.exists_block hcode hopen
      have hsum : others la.stack + others k.stack = 0 := by
        have happend : others (la.stack ++ .curly :: k.stack) =
            others la.stack + others k.stack := by
          simp [others]
        exact happend.symm.trans hothers
      have hkout : k.Outside := by
        refine (hk.settled (settled_code _ _)).eq_code hquoting (eq_nil_of_counts ?_ (by omega))
        exact hk.curlies (settled_code _ _) hblock.flat
      obtain ⟨lb, hlb, hclosable⟩ := hla.exists_closable (by omega)
      obtain ⟨lt, hlt, halike⟩ := hlb.trim
      obtain ⟨l', hl', -⟩ := reads_scopedRule hcls hk hkout hblock.flat hlt
        (hclosable.of_alike (hlt.settled (settled_code _ _)) halike)
      refine ⟨l', hl', ?_⟩
      rintro ⟨r, heq⟩
      exact absurd (congrArg Lexing.stack heq) (by simp [Lexing.within])

/-- **Scoping keeps tidy texts readable.** -/
theorem scopedReads (t : List Char) (htidy : Tidy t) : ScopedReads cls t := by
  induction t using pieces_induction with
  | @uncut t n hlevel =>
      intro l hreads
      rw [itemsOf_uncut hlevel]
      by_cases hblank : AllBlank t
      · rw [trim_eq_nil_iff.mpr hblank]
        exact ⟨{}, .nil _, fun _ => outside_start⟩
      · obtain ⟨k, hk, halike⟩ := hreads.trim
        have htrim := levelAfter_trim (q := .code) skipsBlanks_braces trivial rfl hlevel
        obtain ⟨l', hl', hout⟩ := open_piece_reads hcls htrim hk
          (orderly_of_uncut hlevel hblank htidy)
        refine ⟨l', hl', ?_⟩
        rintro ⟨r, rfl⟩
        exact hout (halike.exists_code (hk.settled (settled_code _ _)))
  | @cut u v rest n c hu hn hc htrim hv hnv ih hrest =>
      intro l hreads
      obtain ⟨hpiece, htidyRest⟩ := tidy_of_cut hu hn hc htidy
      rw [htrim] at hpiece
      -- the piece brings the reader back to where it started
      rw [← List.singleton_append, ← List.append_assoc] at hreads
      obtain ⟨k, hk, hreads⟩ := hreads.exists_of_append
      have hkv : Reads {} (v ++ [c]) k := by
        have hstart := hk.trimStart
        rw [trimStart_append_cons (not_blank_of_cut hc),
          ← trim_concat (not_blank_of_cut hc), htrim] at hstart
        exact hstart
      obtain rfl := reads_closed hkv hv hnv hc (hpiece _ (mem_piecesIn _ _)).1
      obtain ⟨k, hk, hkout⟩ := closed_piece_reads hcls hv hnv hc ih hkv hpiece
      obtain ⟨l', hl', hout⟩ := hrest htidyRest l hreads
      obtain ⟨z, hz, hzout⟩ := reads_sheetText_append hk hkout hl'
      have hitems := itemsOf_cut hu hn hc rest
      rw [htrim] at hitems
      rw [hitems]
      exact ⟨z, hz, fun hlout => hzout (hout hlout)⟩

end Piece

/-! ## The passes -/

/-- **The passes keep sheets sound.**  A sound sheet that is read like its
    tokens is sound once it is minified.  If moreover its pieces close what
    they open, it is sound once it is confined to a class, and once it is
    minified after that. -/
theorem validate_passes {css cls : String} (hvalid : validate css = .ok ())
    (htame : Tame css.toList) :
    validate (minify css) = .ok () ∧
      (IsScopeName cls.toList → Tidy (stripComments css.toList) →
        validate (scope css cls) = .ok () ∧ validate (minify (scope css cls)) = .ok ()) := by
  obtain ⟨l, hl⟩ := exists_reads_stripComments htame hvalid
  refine ⟨validate_minify_of_reads hl, fun hcls htidy => ?_⟩
  obtain ⟨l', hl', -⟩ := scopedReads hcls _ htidy l hl
  have htext : scope css cls =
      String.ofList (sheetText cls.toList (itemsOf (stripComments css.toList))) := by
    rw [scope, scopeChars, hcls.isClassName.scopeName_eq]
    rfl
  rw [htext]
  refine ⟨validate_of_reads hl', validate_minify_of_reads (l := l') ?_⟩
  -- what scoping writes holds no comments
  have hkept : stripComments (sheetText cls.toList (itemsOf (stripComments css.toList))) = _ :=
    hl'.stripFrom_eq (settled_code _ _)
  rw [String.toList_ofList, hkept]
  exact hl'

instance (css : String) : Decidable (validate css = .ok ()) :=
  decidable_of_iff ((validate css).toBool = true) (by
    cases validate css with
    | error fault => exact iff_of_false Bool.false_ne_true (by simp)
    | ok done => exact iff_of_true rfl rfl)

/-- A sheet with a comment, a bare url that holds a semicolon, and a brace in a
    string. -/
theorem validate_passes_media :
    validate "/**/@media y\x7b:root b\x7bc:url(d;e);f:\"\x7d\"\x7d\x7d" = .ok () ∧
      validate (minify "/**/@media y\x7b:root b\x7bc:url(d;e);f:\"\x7d\"\x7d\x7d") = .ok () ∧
      validate (scope "/**/@media y\x7b:root b\x7bc:url(d;e);f:\"\x7d\"\x7d\x7d" "p") = .ok () ∧
      validate (minify (scope "/**/@media y\x7b:root b\x7bc:url(d;e);f:\"\x7d\"\x7d\x7d" "p")) =
        .ok () := by
  have hvalid : validate "/**/@media y\x7b:root b\x7bc:url(d;e);f:\"\x7d\"\x7d\x7d" = .ok () := by
    decide +kernel
  obtain ⟨hminified, hscoped⟩ := @validate_passes _ "p" hvalid (by decide +kernel)
  exact ⟨hvalid, hminified, hscoped (by decide +kernel) (by decide +kernel)⟩

/-- **An escaped space belongs to a name**, but the passes drop it before a
    brace: the backslash then escapes the brace, and the block is never
    opened. -/
theorem not_sound_of_escaped_space :
    validate "a\\ \x7bb:c\x7d" = .ok () ∧ validate (minify "a\\ \x7bb:c\x7d") ≠ .ok () ∧
      validate (scope "a\\ \x7bb:c\x7d" "p") ≠ .ok () ∧
      validate (minify (scope "a\\ \x7bb:c\x7d" "p")) ≠ .ok () := by
  decide +kernel

/-- Pieces must close their parentheses: scoping closes the block of a rule, but
    not the parenthesis open in it. -/
theorem not_sound_scope_of_open_bracket :
    validate "a\x7bb:c(" = .ok () ∧ validate (scope "a\x7bb:c(" "p") ≠ .ok () := by
  decide +kernel

end PageLoom.Css
