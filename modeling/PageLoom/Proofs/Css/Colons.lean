import PageLoom.Proofs.Css.Stretches

/-!
# Colons in selectors — the space that separates a descendant

    In a selector `.a :hover` and `.a:hover` select different elements, so the
    space before the colon matters.  Minification takes a colon for one of a
    selector when a block opens next (`LeadsToBlock`), and keeps the space if
    it counts no open parentheses, which is how it tells media features apart.
    So it keeps one space exactly outside parentheses (`minify_colon`), and
    not within those of `:not(…)` (`minify_descendant_in_parens`).
-/

namespace PageLoom.Css

open Text

/-! ## Where a block opens next -/

/-- A text in which an opening brace is the first brace or semicolon outside
    strings. -/
def LeadsToBlock (q : Quoting) (t : List Char) : Prop :=
  ∃ a b, t = a ++ '{' :: b ∧ q.after a = .code ∧
    ∀ u c v, a = u ++ c :: v → q.after u = .code → c ≠ '{' ∧ c ≠ ';' ∧ c ≠ '}'

/-- One more character that ends no search. -/
theorem leadsToBlock_cons {q : Quoting} {c : Char} {t : List Char}
    (hc : q = .code → c ≠ '{' ∧ c ≠ ';' ∧ c ≠ '}') :
    LeadsToBlock q (c :: t) ↔ LeadsToBlock (q.next c) t := by
  constructor
  · rintro ⟨a, b, hsplit, hcode, hfirst⟩
    cases a with
    | nil =>
        obtain ⟨rfl, rfl⟩ := List.cons.inj hsplit
        exact absurd rfl (hc hcode).1
    | cons x a =>
        obtain ⟨rfl, rfl⟩ := List.cons.inj hsplit
        refine ⟨a, b, rfl, hcode, fun u d v hd hu => ?_⟩
        exact hfirst (c :: u) d v (congrArg (c :: ·) hd) hu
  · rintro ⟨a, b, rfl, hcode, hfirst⟩
    refine ⟨c :: a, b, rfl, hcode, fun u d v hd hu => ?_⟩
    cases u with
    | nil =>
        obtain ⟨rfl, rfl⟩ := List.cons.inj hd
        exact hc hu
    | cons x u =>
        obtain ⟨rfl, rfl⟩ := List.cons.inj hd
        exact hfirst u d v rfl hu

/-- **Looking ahead** finds whether a block opens next. -/
theorem startsBlock_iff {q : Quoting} {t : List Char} :
    startsBlock q t = true ↔ LeadsToBlock q t := by
  induction t generalizing q with
  | nil =>
      refine iff_of_false Bool.false_ne_true ?_
      rintro ⟨a, b, hsplit, -⟩
      cases a <;> cases hsplit
  | cons c t ih =>
      by_cases hstop : q = .code ∧ (c = '{' ∨ c = ';' ∨ c = '}')
      · obtain ⟨rfl, hc⟩ := hstop
        -- nothing can stand before a brace or semicolon that comes first
        have hfirst : LeadsToBlock .code (c :: t) → c = '{' := by
          rintro ⟨a, b, hsplit, -, hfirst⟩
          cases a with
          | nil => exact (List.cons.inj hsplit).1
          | cons x a =>
              obtain ⟨rfl, -⟩ := List.cons.inj hsplit
              obtain ⟨hopen, hsemi, hclose⟩ := hfirst [] c a rfl rfl
              rcases hc with h | h | h
              · exact absurd h hopen
              · exact absurd h hsemi
              · exact absurd h hclose
        rcases hc with rfl | rfl | rfl
        · refine iff_of_true rfl ⟨[], t, rfl, rfl, fun u d v hd => ?_⟩
          cases u <;> cases hd
        · exact iff_of_false Bool.false_ne_true fun h => absurd (hfirst h) (by decide)
        · exact iff_of_false Bool.false_ne_true fun h => absurd (hfirst h) (by decide)
      · have hc : q = .code → c ≠ '{' ∧ c ≠ ';' ∧ c ≠ '}' := fun hq =>
          ⟨fun h => hstop ⟨hq, .inl h⟩, fun h => hstop ⟨hq, .inr (.inl h)⟩,
            fun h => hstop ⟨hq, .inr (.inr h)⟩⟩
        have hnext : startsBlock q (c :: t) = startsBlock (q.next c) t := by
          by_cases hq : q = .code
          · exact startsBlock_of_ne (hc hq) q t
          · exact startsBlock_of_quoted hq c t
        rw [hnext, ih, leadsToBlock_cons hc]

/-! ## Colons -/

namespace Pen

/-- A colon is written after the space held back, unless it is tight. -/
theorem exists_write_colon {p : Pen} (hcode : p.quoting = .code) (rest : List Char) :
    ∃ y, p.write (':' :: rest) = (if p.tightens ':' rest then [] else p.gap) ++ ':' :: y := by
  cases htight : p.tightens ':' rest with
  | true => exact ⟨_, write_of_tight rest hcode htight fun h => absurd h.1 (by decide)⟩
  | false => exact ⟨_, write_of_put rest hcode (by decide) htight⟩

/-- **A colon of a selector** keeps one space before it exactly outside
    parentheses, after a text that ends in a character that is put. -/
theorem exists_write_selector {p : Pen} (hp : p.quoting = .code) {t ws after : List Char}
    {d : Char} (hd : isSpacing d = false ∧ isPunctuation d = false)
    (hcode : Quoting.code.after (t ++ [d]) = .code)
    (hws : ws ≠ [] ∧ AllSpacing ws) (hblock : startsBlock .code after = true) :
    ∃ w y, p.write (t ++ [d] ++ (ws ++ ':' :: after)) =
        w ++ [d] ++ (if openAfter '(' ')' .code p.parens (t ++ [d]) = 0 then [' '] else []) ++
          ':' :: y ∧
      (w ++ [d]).filter isInk = (t ++ [d]).filter isInk := by
  have hopen : p.Open := fun hquoted => absurd hp hquoted
  have hcode' : p.quoting.after (t ++ [d]) = .code := by
    rw [hp]
    exact hcode
  obtain ⟨⟨w, hw⟩, hbetween⟩ := between_put hopen hcode' hd.1 hd.2 (ws ++ ':' :: after)
  have hink := p.filter_isInk_writesFirst (t ++ [d]) (ws ++ ':' :: after)
  rw [hp] at hbetween
  generalize openAfter '(' ')' .code p.parens (t ++ [d]) = n at *
  have hspacing := write_spacing (p := ⟨.code, false, false, n⟩) rfl hws.2 (':' :: after)
  have hheld : (false || !ws.isEmpty) = true := by
    rw [List.isEmpty_eq_false_iff.mpr hws.1]
    rfl
  obtain ⟨y, hy⟩ := exists_write_colon (p := ⟨.code, true, false, n⟩) rfl after
  have htightens : (⟨.code, true, false, n⟩ : Pen).tightens ':' after = !decide (n = 0) := by
    rw [tightens, hblock]
    simp [isPunctuation]
  refine ⟨w, y, ?_, hw ▸ hink⟩
  rw [write_append, hw, hbetween, hspacing, hheld, hy, htightens]
  by_cases hzero : n = 0
  · rw [if_pos hzero, decide_eq_true hzero]
    simp [gap]
  · rw [if_neg hzero, decide_eq_false hzero]
    simp

end Pen

/-- **A colon of a selector** after white space: minification keeps one space
    before it exactly if no parentheses are open there and the text does not
    start with it, but for white space.  What stands before is the text up to
    the white space, but for semicolons and white space. -/
theorem minify_colon {css : String} {lead ws after : List Char} {d : Char}
    (hcss : stripComments css.toList = lead ++ ws ++ ':' :: after)
    (hcode : Quoting.code.after lead = .code)
    (hws : ws ≠ [] ∧ AllSpacing ws) (hlast : lead.getLast? = some d)
    (hd : isSpacing d = false ∧ isPunctuation d = false)
    (hselector : LeadsToBlock .code after) :
    ∃ u y, (minify css).toList =
        u ++ (if openAfter '(' ')' .code 0 lead = 0 ∧ ¬AllBlank lead then [' '] else []) ++
          ':' :: y ∧
      u.filter isInk = (trimStart lead).filter isInk ∧
      u.getLast? = (trimStart lead).getLast? := by
  have htext : (minify css).toList = minifyChars css.toList := String.toList_ofList
  have hblock : startsBlock .code (trimEnd after) = true := by
    obtain ⟨b, hb, hafter, -⟩ := exists_trimEnd after
    rw [← startsBlock_append_allBlank hb, ← hafter]
    exact startsBlock_iff.mpr hselector
  obtain ⟨held, hwrite⟩ := minifyChars_eq css.toList
  have htrim : trim (stripComments css.toList) =
      trimStart (lead ++ ws) ++ ':' :: trimEnd after := by
    rw [hcss, trim, trimStart_append_cons (by decide), trimEnd_append_cons (by decide)]
  rw [htext, hwrite, htrim]
  obtain ⟨a, ha, hlead, hhead⟩ := exists_trimStart lead
  cases hstart : trimStart lead with
  | nil =>
      -- the colon comes first
      have hall : AllBlank lead := by
        rw [hlead, hstart, List.append_nil]
        exact ha
      have hnone : trimStart (lead ++ ws) = [] := by
        rw [trimStart_append hall]
        have h := trimStart_append hws.2.allBlank []
        rwa [List.append_nil] at h
      obtain ⟨y, hy⟩ := Pen.exists_write_colon (p := ⟨.code, held, true, 0⟩) rfl (trimEnd after)
      refine ⟨[], y, ?_, rfl, rfl⟩
      have hgap : (⟨.code, held, true, 0⟩ : Pen).gap = [] := by
        rw [Pen.gap, Bool.not_true, Bool.and_false]
        rfl
      rw [hnone, List.nil_append, hy, hgap, ite_self, if_neg fun h => h.2 hall]
      rfl
  | cons c l =>
      have hsolid : isBlank c = false := hhead c (by rw [hstart]; rfl)
      have hnot : ¬AllBlank lead := by
        intro hall
        have hc := hall c (by rw [hlead, hstart]; exact List.mem_append_right _ List.mem_cons_self)
        rw [hsolid] at hc
        cases hc
      obtain ⟨t, ht⟩ : ∃ t, c :: l = t ++ [d] := by
        refine List.getLast?_eq_some_iff.mp ?_
        rw [hlead, hstart, List.getLast?_append, List.getLast?_cons] at hlast
        rw [List.getLast?_cons]
        exact hlast
      have hwhole : trimStart (lead ++ ws) = t ++ [d] ++ ws := by
        rw [hlead, List.append_assoc, trimStart_append ha, hstart, ← ht, trimStart_of_head]
        rintro x ⟨rfl⟩
        exact hsolid
      have hcode' : Quoting.code.after (t ++ [d]) = .code := by
        rw [hlead, hstart, ht, Quoting.after_append, Quoting.code_after_allBlank ha] at hcode
        exact hcode
      have hparens : openAfter '(' ')' .code 0 lead = openAfter '(' ')' .code 0 (t ++ [d]) := by
        rw [hlead, hstart, ht, openAfter_append, openAfter_allBlank (by decide) (by decide) ha,
          Quoting.code_after_allBlank ha]
      obtain ⟨w, y, hy, hink⟩ := Pen.exists_write_selector (p := ⟨.code, held, true, 0⟩) rfl hd
        hcode' hws hblock
      refine ⟨w ++ [d], y, ?_, ?_, ?_⟩
      · rw [hwhole, List.append_assoc, hy, hparens]
        simp only [hnot, not_false_eq_true, and_true]
      · rw [ht]
        exact hink
      · rw [ht, List.getLast?_concat, List.getLast?_concat]

/-- A descendant after a string, before a rule with an attribute. -/
theorem minify_colon_attribute :
    ∃ u y, (minify "x\x7by:z\x7d [a=\"(\"] \t:is(b)[c='\x7d'] \x7b\x7d").toList =
        u ++ [' '] ++ ':' :: y ∧
      u.filter isInk = "x\x7by:z\x7d[a=\"(\"]".toList ∧ u.getLast? = some ']' := by
  have hcss : stripComments "x\x7by:z\x7d [a=\"(\"] \t:is(b)[c='\x7d'] \x7b\x7d".toList =
      "x\x7by:z\x7d [a=\"(\"]".toList ++ " \t".toList ++
        ':' :: "is(b)[c='\x7d'] \x7b\x7d".toList := by
    decide +kernel
  obtain ⟨u, y, htext, hink, hlast⟩ := minify_colon hcss (by decide +kernel)
    (by decide +kernel) (by decide +kernel : _ = some ']') (by decide)
    (startsBlock_iff.mp (by decide +kernel))
  rw [if_pos (by decide +kernel)] at htext
  exact ⟨u, y, htext, hink.trans (by decide +kernel), hlast.trans (by decide +kernel)⟩

/-- **Within parentheses** the space goes, those of a function and those that
    were left open before alike. -/
theorem minify_descendant_in_parens :
    minify ".x:not(.a :hover)\x7bc:d\x7d" = ".x:not(.a:hover)\x7bc:d\x7d" ∧
      minify "a\x7bb:c(\x7d.a :hover\x7bd:e\x7d" = "a\x7bb:c(\x7d.a:hover\x7bd:e\x7d" := by
  decide +kernel

end PageLoom.Css
