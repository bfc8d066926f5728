import PageLoom.Proofs.Css.Blocks

/-!
# Segmentation — pieces that lose nothing

    What a segmentation is can be said without the scan that finds it: the
    pieces in order, with white space that may be left over, are the text;
    every cut lies outside strings; a block ends where its braces close, a
    statement has none; and every place where a piece ends is a cut, so that
    only the last piece may be an open one (`Segmented`).  Each text has
    exactly one list of such pieces, its segments (`segmented_iff`).
-/

namespace PageLoom.Css

open Text

/-! ## Pieces -/

/-- The braces of a text that are open at its end, strings skipped. -/
abbrev openBraces (t : List Char) : Nat :=
  openAfter '{' '}' .code 0 t

/-- No brace of a text stands outside strings. -/
def NoBrace (q : Quoting) (t : List Char) : Prop :=
  ∀ u c v, t = u ++ c :: v → q.after u = .code → c ≠ '{' ∧ c ≠ '}'

/-- **Where a piece ends**: outside strings, at a closing brace that leaves no
    brace open, and at a semicolon before which none is. -/
def EndsPiece (u : List Char) (c : Char) : Prop :=
  Quoting.code.after u = .code ∧ ((c = '}' ∧ openBraces u ≤ 1) ∨ (c = ';' ∧ openBraces u = 0))

/-- **What a piece of each kind is.** -/
def Segment.Fits : Segment → Prop
  | .block t => t.getLast? = some '}' ∧ openBraces t = 0
  | .statement t => t.getLast? = some ';' ∧ NoBrace .code t
  | .unterminated t => 0 < openBraces t
  | .tail t => openBraces t = 0 ∧ NoBrace .code t

/-- **A segmentation**: the pieces of a text, and what is left over at its end. -/
structure Segmented (css : List Char) (pieces : List Segment) (rest : List Char) : Prop where
  /-- nothing is lost -/
  joined : pieces.flatMap Segment.text ++ rest = css
  /-- only white space is left over -/
  blank : AllBlank rest
  /-- every cut lies outside strings -/
  outside : ∀ before s after, pieces = before ++ s :: after → s.isClosed = true →
    Quoting.code.after (before.flatMap Segment.text ++ s.text) = .code
  fits : ∀ s ∈ pieces, s.Fits
  /-- a place where a piece ends is the end of a closed piece -/
  ends : ∀ s ∈ pieces, ∀ u c v, s.text = u ++ c :: v → EndsPiece u c → s.isClosed = true ∧ v = []
  /-- an open piece is the last one, has a character that is not white space, and
      leaves nothing over -/
  last : ∀ before s after, pieces = before ++ s :: after → s.isClosed = false →
    after = [] ∧ rest = [] ∧ ¬AllBlank s.text

/-! ## Braces and cuts -/

/-- A text that counts from no open brace to none has none outside strings. -/
theorem noBrace_of_levelAfter {q : Quoting} {t : List Char}
    (h : levelAfter braces q 0 t = some 0) : NoBrace q t := by
  rintro u c v rfl hu
  obtain ⟨-, hrest⟩ := levelAfter_zero_of_append h
  rw [hu] at hrest
  obtain ⟨l, hl, hv⟩ := exists_levelNext hrest
  rw [levelNext_code] at hl
  rcases braces_cases hl with ⟨-, rfl⟩ | ⟨-, hlt, -⟩ | ⟨hopen, hclose, -⟩
  · -- a brace that opens stays open up to a cut
    have := one_le_levelAfter (Nat.le_refl 1) hv
    omega
  · omega
  · exact ⟨hopen, hclose⟩

/-- Without braces none is open. -/
theorem NoBrace.openAfter_eq_zero {q : Quoting} {t : List Char} (h : NoBrace q t) :
    openAfter '{' '}' q 0 t = 0 := by
  induction t generalizing q with
  | nil => rfl
  | cons c t ih =>
      have hrest : NoBrace (q.next c) t := fun u d v heq hu =>
        h (c :: u) d v (by rw [heq, List.cons_append]) hu
      have hc : openNext '{' '}' q 0 c = 0 := by
        by_cases hq : q = .code
        · obtain ⟨hopen, hclose⟩ := h [] c t rfl hq
          exact openNext_other hopen hclose q 0
        · exact if_pos hq
      rw [openAfter, hc]
      exact ih hrest

/-- The cuts of the scan are the places where a piece ends. -/
theorem endsPiece_iff {u : List Char} {n : Nat} {c : Char} (hu : Quoting.code.after u = .code)
    (hn : levelAfter braces .code 0 u = some n) : EndsPiece u c ↔ braces n c = none := by
  rw [EndsPiece, openBraces, openAfter_of_levelAfter hn, braces_eq_none_iff]
  exact and_iff_right hu

/-- A text in which no piece ends has no cut. -/
theorem exists_levelAfter_of_not_endsPiece {t : List Char}
    (h : ∀ u c v, t = u ++ c :: v → ¬EndsPiece u c) : ∃ n, levelAfter braces .code 0 t = some n := by
  cases hlevel : levelAfter braces .code 0 t with
  | some n => exact ⟨n, rfl⟩
  | none =>
      obtain ⟨u, c, rest, n, rfl, hu, hn, hc⟩ := exists_cut hlevel
      exact absurd ((endsPiece_iff hu hn).mpr hc) (h u c rest rfl)

/-- No piece ends in a text without a cut. -/
theorem not_endsPiece_of_levelAfter {u v : List Char} {c : Char} {n : Nat}
    (h : levelAfter braces .code 0 (u ++ c :: v) = some n) : ¬EndsPiece u c := by
  intro hends
  obtain ⟨l, hl, hrest⟩ := exists_levelAfter_of_append h
  rw [hends.1] at hrest
  obtain ⟨m, hm, -⟩ := exists_levelNext hrest
  rw [levelNext_code, (endsPiece_iff hends.1 hl).mp hends] at hm
  cases hm

/-- After a cut a scan stands outside strings. -/
theorem code_after_cut {u : List Char} {n : Nat} {c : Char} (hu : Quoting.code.after u = .code)
    (hc : braces n c = none) : Quoting.code.after (u ++ [c]) = .code := by
  rw [Quoting.after_append, hu]
  rcases braces_eq_none_iff.mp hc with ⟨rfl, -⟩ | ⟨rfl, -⟩ <;> rfl

/-! ## The segments of a text -/

/-- The piece up to a cut is what its kind says. -/
theorem fits_pieceAt {u : List Char} {n : Nat} {c : Char} (hu : Quoting.code.after u = .code)
    (hn : levelAfter braces .code 0 u = some n) (hc : braces n c = none) :
    (pieceAt c (u ++ [c])).Fits := by
  rcases braces_eq_none_iff.mp hc with ⟨rfl, -⟩ | ⟨rfl, rfl⟩
  · exact ⟨List.getLast?_concat, openAfter_cut hu hn hc []⟩
  · refine ⟨List.getLast?_concat, ?_⟩
    intro v d w heq hv
    rcases List.eq_nil_or_concat w with rfl | ⟨w, e, rfl⟩
    · obtain ⟨-, hd⟩ := List.append_inj' heq rfl
      obtain rfl : ';' = d := (List.cons.inj hd).1
      decide
    · rw [List.concat_eq_append, ← List.cons_append, ← List.append_assoc] at heq
      obtain ⟨rfl, -⟩ := List.append_inj' heq rfl
      exact noBrace_of_levelAfter hn v d w rfl hv

namespace Segmented

variable {css rest : List Char} {pieces : List Segment}

/-- A closed piece in front of a segmented text. -/
theorem cons {s : Segment} (h : Segmented css pieces rest) (hclosed : s.isClosed = true)
    (hcode : Quoting.code.after s.text = .code) (hfits : s.Fits)
    (hends : ∀ u c v, s.text = u ++ c :: v → EndsPiece u c → v = []) :
    Segmented (s.text ++ css) (s :: pieces) rest where
  joined := by rw [List.flatMap_cons, List.append_assoc, h.joined]
  blank := h.blank
  outside := by
    intro before s' after heq hs'
    cases before with
    | nil =>
        obtain ⟨rfl, -⟩ := List.cons.inj heq
        exact hcode
    | cons p before =>
        obtain ⟨rfl, htail⟩ := List.cons.inj heq
        rw [List.flatMap_cons, List.append_assoc, Quoting.after_append, hcode]
        exact h.outside before s' after htail hs'
  fits := List.forall_mem_cons.mpr ⟨hfits, h.fits⟩
  ends := List.forall_mem_cons.mpr
    ⟨fun u c v heq hcut => ⟨hclosed, hends u c v heq hcut⟩, h.ends⟩
  last := by
    intro before s' after heq hs'
    cases before with
    | nil =>
        obtain ⟨rfl, -⟩ := List.cons.inj heq
        rw [hclosed] at hs'
        cases hs'
    | cons p before => exact h.last before s' after (List.cons.inj heq).2 hs'

/-- What stands behind a closed piece is segmented on its own. -/
theorem tail {s : Segment} (h : Segmented css (s :: pieces) rest) (hclosed : s.isClosed = true) :
    Segmented (pieces.flatMap Segment.text ++ rest) pieces rest where
  joined := rfl
  blank := h.blank
  outside := by
    intro before s' after heq hs'
    have hcode : Quoting.code.after s.text = .code := h.outside [] s pieces rfl hclosed
    have houtside := h.outside (s :: before) s' after (by rw [heq, List.cons_append]) hs'
    rwa [List.flatMap_cons, List.append_assoc, Quoting.after_append, hcode] at houtside
  fits := fun s' hs' => h.fits s' (List.mem_cons_of_mem s hs')
  ends := fun s' hs' => h.ends s' (List.mem_cons_of_mem s hs')
  last := fun before s' after heq hs' =>
    h.last (s :: before) s' after (by rw [heq, List.cons_append]) hs'

/-- A text without a cut. -/
theorem of_uncut {n : Nat} (hn : levelAfter braces .code 0 css = some n) :
    ∃ rest, Segmented css (lastPiece n css) rest := by
  by_cases hblank : css.all isBlank = true
  · refine ⟨css, ?_⟩
    rw [lastPiece, if_pos hblank]
    exact {
      joined := rfl
      blank := allBlank_iff_all.mp hblank
      outside := fun before s after heq _ => absurd heq.symm (by simp)
      fits := List.forall_mem_nil _
      ends := List.forall_mem_nil _
      last := fun before s after heq _ => absurd heq.symm (by simp) }
  · -- one open piece, whose kind the open braces decide
    obtain ⟨s, hs, hopen, htext, hfits⟩ : ∃ s, lastPiece n css = [s] ∧ s.isClosed = false ∧
        s.text = css ∧ s.Fits := by
      rw [lastPiece, if_neg hblank]
      split
      · rename_i hpos
        refine ⟨_, rfl, rfl, rfl, ?_⟩
        show 0 < openBraces css
        rwa [openBraces, openAfter_of_levelAfter hn]
      · rename_i hzero
        obtain rfl : n = 0 := Nat.eq_zero_of_not_pos hzero
        exact ⟨_, rfl, rfl, rfl, openAfter_of_levelAfter hn, noBrace_of_levelAfter hn⟩
    have hsingle : ∀ before s' after, [s] = before ++ s' :: after → s' = s ∧ after = [] := by
      intro before s' after heq
      cases before with
      | nil =>
          obtain ⟨rfl, hafter⟩ := List.cons.inj heq
          exact ⟨rfl, hafter.symm⟩
      | cons p before => exact absurd (List.cons.inj heq).2 (by simp)
    rw [hs]
    exact ⟨[], {
      joined := by rw [List.flatMap_cons, List.flatMap_nil, List.append_nil, List.append_nil, htext]
      blank := allBlank_nil
      outside := by
        intro before s' after heq hclosed
        rw [(hsingle before s' after heq).1, hopen] at hclosed
        cases hclosed
      fits := by
        intro s' hs'
        rw [List.mem_singleton.mp hs']
        exact hfits
      ends := by
        intro s' hs' u c v heq hcut
        rw [List.mem_singleton.mp hs', htext] at heq
        rw [heq] at hn
        exact absurd hcut (not_endsPiece_of_levelAfter hn)
      last := by
        intro before s' after heq _
        obtain ⟨rfl, rfl⟩ := hsingle before s' after heq
        rw [htext]
        exact ⟨rfl, rfl, fun hall => hblank (allBlank_iff_all.mpr hall)⟩ }⟩

/-- **The segments of a text segment it.** -/
theorem segments (css : List Char) : ∃ rest, Segmented css (segments css) rest := by
  induction css using pieces_induction with
  | uncut hn =>
      rw [segments_of_uncut hn]
      exact of_uncut hn
  | @cut u v css n c hu hn hc _ _ _ _ ih =>
      obtain ⟨rest, h⟩ := ih
      rw [segments_of_cut hu hn hc]
      refine ⟨rest, ?_⟩
      have hcons := h.cons (isClosed_pieceAt c (u ++ [c]))
        (by rw [text_pieceAt]; exact code_after_cut hu hc) (fits_pieceAt hu hn hc) ?_
      · rwa [text_pieceAt, List.append_assoc, List.singleton_append] at hcons
      · intro a d w heq hcut
        rw [text_pieceAt] at heq
        rcases List.eq_nil_or_concat w with hw | ⟨w, e, rfl⟩
        · exact hw
        · -- before the cut no piece ends
          rw [List.concat_eq_append, ← List.cons_append, ← List.append_assoc] at heq
          obtain ⟨rfl, -⟩ := List.append_inj' heq rfl
          exact absurd hcut (not_endsPiece_of_levelAfter hn)

/-! ## No other pieces -/

/-- A closed piece is the text up to a cut. -/
theorem exists_of_closed {s : Segment} (h : Segmented css (s :: pieces) rest)
    (hclosed : s.isClosed = true) :
    ∃ u c n, s = pieceAt c (u ++ [c]) ∧ Quoting.code.after u = .code ∧
      levelAfter braces .code 0 u = some n ∧ braces n c = none := by
  have hcode : Quoting.code.after s.text = .code := h.outside [] s pieces rfl hclosed
  obtain ⟨u, c, hs, hplain, hends⟩ : ∃ u c, s = pieceAt c (u ++ [c]) ∧
      (isQuote c = false ∧ c ≠ '\\') ∧ (Quoting.code.after u = .code → EndsPiece u c) := by
    have hfits := h.fits s (List.mem_cons_self ..)
    cases s with
    | block t =>
        obtain ⟨hlast, hopen⟩ := hfits
        obtain ⟨u, rfl⟩ := List.getLast?_eq_some_iff.mp hlast
        refine ⟨u, '}', rfl, by decide, fun hu => ⟨hu, Or.inl ⟨rfl, ?_⟩⟩⟩
        rw [openBraces, openAfter_append, hu] at hopen
        exact Nat.le_of_sub_eq_zero hopen
    | statement t =>
        obtain ⟨hlast, hbrace⟩ := hfits
        obtain ⟨u, rfl⟩ := List.getLast?_eq_some_iff.mp hlast
        refine ⟨u, ';', rfl, by decide, fun hu => ⟨hu, Or.inr ⟨rfl, ?_⟩⟩⟩
        have hopen := hbrace.openAfter_eq_zero
        rw [openAfter_append, hu] at hopen
        exact hopen
    | unterminated t => cases hclosed
    | tail t => cases hclosed
  have htext : s.text = u ++ [c] := by rw [hs, text_pieceAt]
  rw [htext] at hcode
  have hu : Quoting.code.after u = .code := Quoting.code_after_of_plain hplain allBlank_nil hcode
  obtain ⟨n, hn⟩ := exists_levelAfter_of_not_endsPiece (t := u) fun a d v heq hcut => by
    have hnil := (h.ends s (List.mem_cons_self ..) a d (v ++ [c])
      (by rw [htext, heq, List.append_assoc, List.cons_append]) hcut).2
    exact absurd hnil (by simp)
  exact ⟨u, c, n, hs, hu, hn, (endsPiece_iff hu hn).mp (hends hu)⟩

/-- An open piece is the whole rest of the text, without a cut. -/
theorem eq_lastPiece {s : Segment} (h : Segmented css (s :: pieces) rest)
    (hopen : s.isClosed = false) :
    ∃ n, levelAfter braces .code 0 css = some n ∧ s :: pieces = lastPiece n css := by
  obtain ⟨rfl, rfl, hblank⟩ := h.last [] s pieces rfl hopen
  have hcss : s.text = css := by
    rw [← h.joined, List.flatMap_cons, List.flatMap_nil, List.append_nil, List.append_nil]
  obtain ⟨n, hn⟩ := exists_levelAfter_of_not_endsPiece (t := css) fun u c v heq hcut => by
    have hclosed := (h.ends s (List.mem_cons_self ..) u c v (hcss.trans heq) hcut).1
    rw [hopen] at hclosed
    cases hclosed
  refine ⟨n, hn, ?_⟩
  have hall : ¬css.all isBlank = true := fun hall =>
    hblank (by rw [hcss]; exact allBlank_iff_all.mp hall)
  have hcount : openBraces css = n := openAfter_of_levelAfter hn
  have hfits := h.fits s (List.mem_cons_self ..)
  rw [lastPiece, if_neg hall]
  cases s with
  | block t => cases hopen
  | statement t => cases hopen
  | unterminated t =>
      obtain rfl : t = css := hcss
      have hpos : 0 < n := hcount ▸ hfits
      rw [if_pos hpos]
  | tail t =>
      obtain rfl : t = css := hcss
      have hzero : n = 0 := hcount.symm.trans hfits.1
      rw [if_neg (by omega)]

/-- **Any segmentation consists of the segments.** -/
theorem eq_segments (h : Segmented css pieces rest) : pieces = Css.segments css := by
  induction pieces generalizing css with
  | nil =>
      obtain rfl : rest = css := h.joined
      rw [segments_of_uncut (levelAfter_allBlank skipsBlanks_braces h.blank .code 0), lastPiece,
        if_pos (allBlank_iff_all.mpr h.blank)]
  | cons s pieces ih =>
      cases hclosed : s.isClosed with
      | true =>
          obtain ⟨u, c, n, rfl, hu, hn, hc⟩ := h.exists_of_closed hclosed
          have hcss : css = u ++ c :: (pieces.flatMap Segment.text ++ rest) := by
            rw [← h.joined, List.flatMap_cons, text_pieceAt, List.append_assoc, List.append_assoc,
              List.singleton_append]
          rw [hcss, segments_of_cut hu hn hc, ← ih (h.tail hclosed)]
      | false =>
          obtain ⟨n, hn, hpieces⟩ := h.eq_lastPiece hclosed
          rw [segments_of_uncut hn, hpieces]

end Segmented

/-- **Segmentation loses nothing**: the segments of a text are the one list of
    pieces that segments it, up to white space left over at the end. -/
theorem segmented_iff (css : List Char) (pieces : List Segment) :
    pieces = segments css ↔ ∃ rest, Segmented css pieces rest := by
  constructor
  · rintro rfl
    exact Segmented.segments css
  · rintro ⟨rest, h⟩
    exact h.eq_segments

example : segments "@x \"\x7b;\";a\x7bb\x7bc\x7d\x7d \x7d d\x7be ".toList =
    [.statement "@x \"\x7b;\";".toList, .block "a\x7bb\x7bc\x7d\x7d".toList,
      .block " \x7d".toList, .unterminated " d\x7be ".toList] := by
  decide

end PageLoom.Css
