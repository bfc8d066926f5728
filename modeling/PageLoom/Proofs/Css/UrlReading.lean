import PageLoom.Proofs.Css.Leads

/-!
# Urls and functions, as the reader meets them

    After `url(` a token takes in the whole bare url with its closing
    bracket, or no more than the bracket when a quote follows.  The reader
    goes through the bare url inside an open bracket, which the end of the
    url closes (`ActsInUrl`, `acts_url`).  Any other name before a bracket
    is a function, and the name alone a word (`acts_nameLike`).
-/

namespace PageLoom.Css

open Text Token

/-! ## Urls -/

/-- A character of a bare url that closes nothing. -/
theorem not_bracket_of_isUrlText {c : Char} (h : Mode.isUrlText c = true) (hopen : c ≠ '(')
    (hclose : c ≠ ')') : c ∉ ['(', ')', '[', ']', '{', '}'] := by
  intro hmem
  simp only [List.mem_cons, List.not_mem_nil, or_false] at hmem
  rcases hmem with rfl | rfl | rfl | rfl | rfl | rfl
  · exact hopen rfl
  · exact hclose rfl
  all_goals exact absurd h (by decide)

/-- What the rest of a bare url does when a reader stands at `m` in it. -/
structure ActsInUrl (m : Mode) (scan : TokenKind × Nat) (t : List Char) : Prop where
  leads : ∀ {stack : List Bracket}, scan.1 = .other →
    Leads ⟨m, .round :: stack⟩ t ⟨.code .fresh, stack⟩ (t.drop scan.2)
  stops : ∀ {stack : List Bracket}, scan.1 ≠ .other →
    (Lexing.after ⟨m, .round :: stack⟩ t) = none
  kind : scan.1 = .other ∨ scan.1 = .malformed

namespace ActsInUrl

variable {m : Mode} {c : Char} {t : List Char}

theorem nil (m : Mode) : ActsInUrl m (.other, 0) [] :=
  ⟨fun _ => Leads.nil _ _, fun h => absurd rfl h, Or.inl rfl⟩

/-- The bracket that closes a url. -/
theorem close (hcounts : m.counts = true) (h : m.next ')' = some (.code .fresh)) :
    ActsInUrl m (.other, 1) (')' :: t) := by
  refine ⟨fun _ => Leads.step ?_ t, fun h => absurd rfl h, Or.inl rfl⟩
  rw [Lexing.next, h, Option.bind_some, hcounts]
  rfl

/-- A character that breaks a url. -/
theorem stop (h : m.next c = none) (n : Nat) : ActsInUrl m (.malformed, n) (c :: t) := by
  refine ⟨fun h => (by cases h), fun _ => ?_, Or.inr rfl⟩
  show (Lexing.next ⟨m, _⟩ c).bind _ = none
  rw [Lexing.next, h]
  rfl

/-- A character inside a url. -/
theorem cons {m' : Mode} {scan : TokenKind × Nat} (h : m.next c = some m')
    (hc : c ∉ ['(', ')', '[', ']', '{', '}']) (ht : ActsInUrl m' scan t) :
    ActsInUrl m (scan.1, scan.2 + 1) (c :: t) := by
  have hstep : ∀ stack, Leads ⟨m, stack⟩ (c :: t) ⟨m', stack⟩ t := fun stack =>
    Leads.skip h hc stack t
  refine ⟨fun hkind => (hstep _).trans (ht.leads hkind), fun {stack} hkind => ?_, ht.kind⟩
  have hnone : Lexing.after ⟨m', .round :: stack⟩ t = none := ht.stops hkind
  have hsound := (hstep (.round :: stack)).sound
  rw [hnone] at hsound
  exact Option.not_isSome_iff_eq_none.mp (by rw [hsound]; exact Bool.false_ne_true)

end ActsInUrl

/-- The white space at the end of a bare url. -/
theorem actsInUrl_urlEnd (t : List Char) : ActsInUrl .urlEnd (urlEnd t) t := by
  induction t with
  | nil => exact .nil _
  | cons c t ih =>
      rw [urlEnd]
      by_cases hclose : c = ')'
      · subst hclose
        exact .close rfl rfl
      · rw [if_neg (by simpa using hclose)]
        by_cases hspace : isSpace c = true
        · rw [if_pos hspace]
          refine .cons ?_ (not_bracket_of_isSpace hspace) ih
          rw [Mode.next, if_neg hclose, if_pos hspace]
        · rw [if_neg hspace]
          refine .stop ?_ 1
          rw [Mode.next, if_neg hclose, if_neg hspace]

/-- Places from which a bare url goes on. -/
def Mode.InUrl (m : Mode) (t : List Char) : Prop :=
  m.counts = true ∧ (∀ c, m.admits c = true → isUrlText c = true) ∧
    ∀ c s, t = c :: s → m.next c = inUrl c

theorem inUrl_url (t : List Char) : Mode.url.InUrl t :=
  ⟨rfl, fun _ h => h, fun _ _ _ => rfl⟩

theorem inUrl_urlSlash (t : List Char) : Mode.urlSlash.InUrl t :=
  ⟨rfl, fun _ h => (Bool.and_eq_true_iff.mp h).1, fun _ _ _ => rfl⟩

/-- **The rest of a bare url.** -/
theorem actsInUrl_urlBody {m : Mode} {t : List Char} (hm : m.InUrl t)
    (hplain : m.isPlain t = true) : ActsInUrl m (urlBody t) t := by
  induction t generalizing m with
  | nil =>
      rw [urlBody]
      exact .nil m
  | cons c t ih =>
      obtain ⟨hcounts, hadmits, hnext⟩ := hm
      have hnext := hnext c t rfl
      rw [Mode.isPlain, Bool.and_eq_true, hnext] at hplain
      obtain ⟨hc, hplain⟩ := hplain
      have htext := hadmits c hc
      rw [urlBody]
      by_cases hclose : c = ')'
      · subst hclose
        exact .close hcounts hnext
      rw [if_neg (by simpa using hclose)]
      rw [Mode.inUrl, if_neg hclose] at hnext hplain
      by_cases hspace : isSpace c = true
      · rw [if_pos hspace] at hnext ⊢
        exact .cons hnext (not_bracket_of_isSpace hspace) (actsInUrl_urlEnd t)
      rw [if_neg hspace] at hnext hplain ⊢
      by_cases hbreak : (isUnprintable c || isQuote c || c = '(') = true
      · rw [if_pos hbreak] at hnext
        rw [if_pos (by simpa [isQuote, or_assoc] using hbreak)]
        exact .stop hnext 1
      rw [if_neg hbreak] at hnext hplain
      rw [if_neg (by simpa [isQuote, or_assoc] using hbreak)]
      have hslash : (c == '\\') = false := by
        rw [beq_eq_false_iff_ne]
        rintro rfl
        exact absurd htext (by decide)
      have hopen : c ≠ '(' := by
        rintro rfl
        exact hbreak rfl
      have hbracket := not_bracket_of_isUrlText htext hopen hclose
      rw [hslash]
      by_cases hpath : c = '/'
      · rw [if_pos hpath] at hnext hplain
        exact .cons hnext hbracket (ih (inUrl_urlSlash t) hplain)
      · rw [if_neg hpath] at hnext hplain
        exact .cons hnext hbracket (ih (inUrl_url t) hplain)

/-- White space and a quote after `url(` are read as in fresh code. -/
theorem Leads.gap {stack : List Bracket} {t : List Char}
    (h : ∀ c, (t.dropWhile isSpace).head? = some c → isQuote c = true) :
    Leads ⟨.urlStart, stack⟩ t ⟨.code .fresh, stack⟩ t := by
  induction t with
  | nil => exact nil _ _
  | cons c t ih =>
      rw [List.dropWhile_cons] at h
      by_cases hspace : isSpace c = true
      · rw [if_pos hspace] at h
        refine cons (if_pos hspace) (Mode.next_of_isSpace hspace .fresh)
          (not_bracket_of_isSpace hspace) ?_ (ih h)
        rw [Mode.admits, not_foreign_of_isSpace hspace]
        rfl
      · rw [if_neg hspace] at h
        have hquote := h c rfl
        refine alike rfl (fun d hd => (Bool.and_eq_true_iff.mp hd).1) ?_
        rintro d s ⟨rfl, rfl⟩
        have hstart : Mode.urlStart.next c = some (.string c .plain) := by
          rw [Mode.next, if_neg hspace, if_pos hquote]
        rw [hstart, Mode.next, if_pos hquote]

/-- Nothing but white space after `url(`. -/
theorem url_of_gap {t : List Char} (h : t.dropWhile isSpace = []) :
    url t = (.other, (t.takeWhile isSpace).length) := by
  simp only [url, drop_takeWhile, h]

/-- A quote after `url(` and white space. -/
theorem url_of_quote {t rest : List Char} {c : Char} (h : t.dropWhile isSpace = c :: rest)
    (hc : isQuote c = true) : url t = (.opens .round, 0) := by
  simp only [url, drop_takeWhile, h]
  exact if_pos hc

/-- A bare url after `url(` and white space. -/
theorem url_of_bare {t rest : List Char} {c : Char} (h : t.dropWhile isSpace = c :: rest)
    (hc : isQuote c = false) :
    url t = ((urlBody (c :: rest)).1,
      (t.takeWhile isSpace).length + (urlBody (c :: rest)).2) := by
  simp only [url, drop_takeWhile, h]
  exact if_neg (by rw [← isQuote, hc]; exact Bool.false_ne_true)

theorem urlStart_of_isSpace {c : Char} (h : isSpace c = true) :
    Mode.urlStart.next c = some .urlStart :=
  if_pos h

/-- **What follows `url(`**: a bare url, or nothing when it is a function. -/
theorem acts_url {t : List Char} (hplain : Mode.urlStart.isPlain t = true) :
    (url t = (.opens .round, 0) ∧
        ∀ stack, Leads ⟨.urlStart, stack⟩ t ⟨.code .fresh, stack⟩ t) ∨
      ActsInUrl .urlStart (url t) t := by
  have hgap : ∀ stack, Leads ⟨.urlStart, stack⟩ t ⟨.urlStart, stack⟩ (t.dropWhile isSpace) :=
    Leads.dropWhile (fun c hc => ⟨urlStart_of_isSpace hc, not_bracket_of_isSpace hc⟩) (t := t)
  have hrest := (hgap []).plain hplain
  have hdrop := drop_takeWhile isSpace t
  cases hd : t.dropWhile isSpace with
  | nil =>
      right
      rw [url_of_gap hd]
      refine ⟨fun {stack} _ => ?_, fun h => absurd rfl h, Or.inl rfl⟩
      show Leads _ t _ (t.drop (t.takeWhile isSpace).length)
      rw [hdrop, hd]
      have h := hgap (.round :: stack)
      rw [hd] at h
      exact h.trans (Leads.nil _ _)
  | cons c rest =>
      have hspace : isSpace c = false := by
        have hhead := List.head?_dropWhile_not isSpace t
        rw [hd] at hhead
        exact hhead
      cases hquote : isQuote c with
      | true =>
          left
          refine ⟨url_of_quote hd hquote, fun stack => Leads.gap ?_⟩
          rw [hd]
          rintro d ⟨rfl⟩
          exact hquote
      | false =>
          right
          have hm : Mode.urlStart.InUrl (c :: rest) := by
            refine ⟨rfl, fun _ h => h, ?_⟩
            rintro d s ⟨rfl, rfl⟩
            rw [Mode.next, hspace, hquote]
            rfl
          rw [hd] at hrest hgap
          have hbody := actsInUrl_urlBody hm hrest
          rw [url_of_bare hd hquote]
          refine ⟨fun {stack} hkind => ?_, fun {stack} hkind => ?_, hbody.kind⟩
          · have hurl : Leads ⟨.urlStart, .round :: stack⟩ (c :: rest) _ _ := hbody.leads hkind
            show Leads _ t _ (t.drop ((t.takeWhile isSpace).length + (urlBody (c :: rest)).2))
            rw [← List.drop_drop, hdrop, hd]
            exact (hgap _).trans hurl
          · have hsound := (hgap (.round :: stack)).sound
            rw [hbody.stops hkind] at hsound
            exact Option.not_isSome_iff_eq_none.mp (by rw [hsound]; exact Bool.false_ne_true)

/-! ## Functions -/

theorem nameLike_of_open {t rest : List Char} {r : Recent} (hplain : (Mode.code r).isPlain t = true)
    (h : t.dropWhile isNameChar = '(' :: rest) :
    nameLike t =
      if (t.takeWhile isNameChar).map Char.toLower = ['u', 'r', 'l'] then
        ((url rest).1, (t.takeWhile isNameChar).length + 1 + (url rest).2)
      else (.opens .round, (t.takeWhile isNameChar).length + 1) := by
  simp only [nameLike, name_of_plain hplain, drop_takeWhile, h]
  by_cases hurl : (t.takeWhile isNameChar).map Char.toLower = ['u', 'r', 'l']
  · rw [if_pos hurl, if_pos (beq_iff_eq.mpr ((toLower_unzero _).mpr hurl))]
  · rw [if_neg hurl, if_neg fun h => hurl ((toLower_unzero _).mp (beq_iff_eq.mp h))]

theorem nameLike_of_not_open {t : List Char} {r : Recent}
    (hplain : (Mode.code r).isPlain t = true) (h : (t.dropWhile isNameChar).head? ≠ some '(') :
    nameLike t = (.other, (t.takeWhile isNameChar).length) := by
  simp only [nameLike, name_of_plain hplain, drop_takeWhile]
  split
  · rename_i heq
    rw [heq] at h
    exact absurd rfl h
  · rfl

/-- **A name, a function or a url.** -/
theorem acts_nameLike {c : Char} {t : List Char} (hc : isNameChar c = true)
    (hplain : (Mode.code .fresh).isPlain (c :: t) = true) : Acts (nameLike (c :: t)) (c :: t) := by
  have hname := fun stack => Leads.name .fresh stack (c :: t)
  obtain ⟨hr, hurl⟩ : (Recent.fresh.after ((c :: t).takeWhile isNameChar)).IsName ∧
      (Recent.fresh.after ((c :: t).takeWhile isNameChar) = .url ↔
        ((c :: t).takeWhile isNameChar).map Char.toLower = ['u', 'r', 'l']) := by
    have hall : ∀ d ∈ (c :: t).takeWhile isNameChar, isNameChar d = true :=
      List.all_eq_true.mp List.all_takeWhile
    rw [List.takeWhile_cons, hc] at hall ⊢
    exact Recent.fresh_after_name hall
  generalize Recent.fresh.after ((c :: t).takeWhile isNameChar) = r at hname hr hurl
  have hdrop := drop_takeWhile isNameChar (c :: t)
  by_cases hopen : ((c :: t).dropWhile isNameChar).head? = some '('
  · obtain ⟨rest, hrest⟩ := List.head?_eq_some_iff.mp hopen
    rw [hrest] at hname hdrop
    have hskip : ∀ n, (c :: t).drop (((c :: t).takeWhile isNameChar).length + 1 + n) =
        rest.drop n := by
      intro n
      rw [Nat.add_assoc, ← List.drop_drop, hdrop, Nat.add_comm 1 n, List.drop_succ_cons]
    rw [nameLike_of_open hplain hrest]
    by_cases hlower : ((c :: t).takeWhile isNameChar).map Char.toLower = ['u', 'r', 'l']
    · rw [if_pos hlower]
      obtain rfl := hurl.mpr hlower
      have hstart : ∀ stack, Leads ⟨.code .fresh, stack⟩ (c :: t)
          ⟨.urlStart, .round :: stack⟩ rest := fun stack =>
        (hname stack).trans (Leads.step rfl rest)
      rcases acts_url ((hstart []).plain hplain) with ⟨hfunction, hleads⟩ | hacts
      · rw [hfunction]
        constructor
        · intro stack stack' hact
          obtain rfl : .round :: stack = stack' := Option.some.inj hact
          rw [hskip]
          exact (hstart stack).trans (hleads _)
        · intro stack hact
          cases hact
      · constructor
        · intro stack stack' hact
          rcases hacts.kind with hkind | hkind
          · rw [hkind] at hact
            obtain rfl : stack = stack' := Option.some.inj hact
            rw [hskip]
            exact (hstart stack).trans (hacts.leads hkind)
          · rw [hkind] at hact
            cases hact
        · intro stack hact
          refine (hstart stack).stops (hacts.stops fun hkind => ?_)
          rw [hkind] at hact
          cases hact
    · rw [if_neg hlower]
      have hnot : r ≠ .url := fun h => hlower (hurl.mp h)
      have hnext : (Mode.code r).next '(' = some (.code .fresh) := by
        rw [Mode.next_code (by decide) (fun h => absurd h.1 (by decide)) fun h => hnot h.2]
        rfl
      constructor
      · intro stack stack' hact
        obtain rfl : .round :: stack = stack' := Option.some.inj hact
        show Leads _ _ _ ((c :: t).drop (((c :: t).takeWhile isNameChar).length + 1 + 0))
        rw [hskip]
        refine (hname stack).trans (Leads.step ?_ rest)
        rw [Lexing.next, hnext]
        rfl
      · intro stack hact
        cases hact
  · rw [nameLike_of_not_open hplain hopen]
    refine Acts.other fun stack => ?_
    rw [hdrop]
    refine (hname stack).trans (Leads.alike rfl (fun _ h => h) fun d s hd => ?_)
    have hstop := List.head?_dropWhile_not isNameChar (c :: t)
    rw [hd] at hstop hopen
    refine Mode.next_after_name hr hstop fun h => hopen ?_
    rw [h.1]
    rfl

end PageLoom.Css
