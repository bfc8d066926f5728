import PageLoom.Proofs.Css.Confinement
import PageLoom.Proofs.Css.Runs

/-!
# Scoped texts, read — lists, blocks and lines

    What scoping writes is read piece by piece.  A class takes a reader from
    fresh code to the inside of a name, where the root selector takes it too
    (`reads_scopeMember`), so a scoped selector list is read where the list
    was (`reads_scopedList`).  A block is read as if it stood alone, for it
    does not close the brace that opens it (`Reads.exists_block`), and lines
    are read one after the other (`reads_sheetText_append`).
-/

namespace PageLoom.Css

open Text Token

/-- Outside strings and all brackets. -/
def Lexing.Outside (l : Lexing) : Prop :=
  ∃ r, l = ⟨.code r, []⟩

theorem outside_start : Lexing.Outside {} :=
  ⟨.fresh, rfl⟩

/-! ## Names -/

/-- A name that can stand before any text: a class of this name joins no text to
    a `url(`. -/
structure IsScopeName (cls : List Char) : Prop where
  ne_nil : cls ≠ []
  chars : ∀ c ∈ cls, isNameChar c = true ∧ isBlank c = false
  other : cls.map Char.toLower ∉ [['u'], ['u', 'r'], ['u', 'r', 'l']]

instance (cls : List Char) : Decidable (IsScopeName cls) :=
  decidable_of_iff (cls ≠ [] ∧ cls.all (fun c => isNameChar c && !isBlank c) = true ∧
      cls.map Char.toLower ∉ [['u'], ['u', 'r'], ['u', 'r', 'l']]) (by
    simp only [List.all_eq_true, Bool.and_eq_true, Bool.not_eq_true']
    exact ⟨fun ⟨h1, h2, h3⟩ => ⟨h1, h2, h3⟩, fun h => ⟨h.ne_nil, h.chars, h.other⟩⟩)

/-- Such a name is a class name. -/
theorem IsScopeName.isClassName {cls : List Char} (h : IsScopeName cls) : IsClassName cls := by
  refine ⟨h.ne_nil, fun c hc => ?_⟩
  obtain ⟨hname, hblank⟩ := h.chars c hc
  refine isClassChar_iff.mpr ⟨hblank, isQuote_of_isNameChar hname, fun hmem => ?_⟩
  simp only [List.mem_cons, List.not_mem_nil, or_false] at hmem
  rcases hmem with rfl | rfl | rfl | rfl | rfl | rfl | rfl | rfl | rfl <;>
    exact absurd hname (by decide)

/-- **A name that cannot go on as `url(`** is read as a word. -/
theorem IsScopeName.after_eq_word {cls : List Char} (h : IsScopeName cls) :
    Recent.fresh.after cls = .word := by
  obtain ⟨c, t, rfl⟩ := List.exists_cons_of_ne_nil h.ne_nil
  have hname : ∀ d ∈ c :: t, isNameChar d = true := fun d hd => (h.chars d hd).1
  -- a name that goes on as `url` is the start of it
  have hstart : ∀ a b : List Char, (∀ d ∈ b, isNameChar d = true) → b.map Char.toLower = b →
      a ++ b = ['u', 'r', 'l'] → (Recent.fresh.after (c :: t)).after b = .url →
      (c :: t).map Char.toLower = a := by
    intro a b hb hlower hab hurl
    have happend : Recent.fresh.after (c :: (t ++ b)) = .url := by
      rw [← hurl]
      exact List.foldl_append
    have hnames : ∀ d ∈ c :: (t ++ b), isNameChar d = true := by
      intro d hd
      rw [← List.cons_append, List.mem_append] at hd
      exact hd.elim (hname d) (hb d)
    have heq := (Recent.fresh_after_name hnames).2.mp happend
    rw [← List.cons_append, List.map_append, hlower, ← hab] at heq
    exact List.append_cancel_right heq
  have hother : ∀ a, (c :: t).map Char.toLower = a → a ∉ [['u'], ['u', 'r'], ['u', 'r', 'l']] := by
    rintro a rfl
    exact h.other
  have hkind := (Recent.fresh_after_name hname).1
  simp only [Recent.IsName, List.mem_cons, List.not_mem_nil, or_false] at hkind
  rcases hkind with hword | hu | hur | hurl
  · exact hword
  · have hlower : (c :: t).map Char.toLower = ['u'] := by
      refine hstart _ ['r', 'l'] (List.all_eq_true.mp rfl) (by decide) rfl ?_
      rw [hu]
      decide
    exact absurd (by decide) (hother _ hlower)
  · have hlower : (c :: t).map Char.toLower = ['u', 'r'] := by
      refine hstart _ ['l'] (List.all_eq_true.mp rfl) (by decide) rfl ?_
      rw [hur]
      decide
    exact absurd (by decide) (hother _ hlower)
  · have hlower : (c :: t).map Char.toLower = ['u', 'r', 'l'] :=
      hstart _ [] (List.forall_mem_nil _) rfl rfl hurl
    exact absurd (by decide) (hother _ hlower)

/-- Names are read. -/
theorem reads_name {cls : List Char} (h : ∀ c ∈ cls, isNameChar c = true ∧ isBlank c = false)
    (r : Recent) (stack : List Bracket) :
    Reads ⟨.code r, stack⟩ cls ⟨.code (r.after cls), stack⟩ := by
  induction cls generalizing r with
  | nil => exact .nil _
  | cons c cls ih =>
      obtain ⟨⟨hname, hblank⟩, hcls⟩ := List.forall_mem_cons.mp h
      have hadmits : (Mode.code r).admits c = true := by
        have hback : c ≠ '\\' := ne_of_isNameChar hname (by decide)
        simp [Mode.admits, Mode.isForeign, hback, hblank]
      have hnext : Lexing.next ⟨.code r, stack⟩ c = some ⟨.code (r.next c), stack⟩ :=
        (Lexing.next_iff (by simp)).mpr ⟨Mode.next_of_isNameChar r hname,
          turn_other (not_bracket_of_isNameChar hname) stack⟩
      exact .cons hadmits hnext (by simp) (ih hcls (r.next c))

/-! ## Selector lists -/

section List

variable {cls : List Char} (hcls : IsScopeName cls)

include hcls

/-- The class itself. -/
theorem reads_class : Reads {} ('.' :: cls) ⟨.code .word, []⟩ := by
  rw [← hcls.after_eq_word]
  exact .cons rfl rfl (by simp) (reads_name hcls.chars .fresh [])

/-- **A scoped member** is read where the member was. -/
theorem reads_scopeMember {m : List Char} {l : Lexing} (h : Reads {} m l) :
    Reads {} (scopeMember cls m) l := by
  rcases scopeMember_cases cls m with ⟨-, hself⟩ | ⟨-, ⟨rest, rfl, hscoped⟩ | ⟨-, hscoped⟩⟩
  · rw [hself]
    exact h
  · -- after the root selector a reader stands in a word as well
    have hroot : Reads {} [':', 'r', 'o', 'o', 't'] ⟨.code .word, []⟩ :=
      .cons rfl rfl (by simp) (.cons rfl rfl (by simp) (.cons rfl rfl (by simp)
        (.cons rfl rfl (by simp) (.cons rfl rfl (by simp) (.nil _)))))
    obtain ⟨k, hk, hrest⟩ := h.exists_of_append
    rw [hk.unique hroot] at hrest
    rw [hscoped]
    exact (reads_class hcls).append hrest
  · rw [hscoped]
    exact (reads_class hcls).append (.cons rfl rfl (by simp) h)

/-- **A scoped selector list** is read when the list is. -/
theorem reads_scopedList {selectors : List Char} {l : Lexing} (h : Reads {} selectors l)
    (hl : l.Outside) (hflat : levelAfter braces .code 0 selectors = some 0) :
    ∃ l', Reads {} (joinMembers ((cleanMembers selectors).map (scopeMember cls))) l' ∧
      l'.Outside := by
  have hmember : ∀ {m k}, Reads {} m k → k.Outside →
      ∃ r, Reads {} (scopeMember cls (trim m)) ⟨.code r, []⟩ := by
    rintro m k hm ⟨r, rfl⟩
    obtain ⟨r', hr⟩ := hm.exists_trim
    exact ⟨r', reads_scopeMember hcls hr⟩
  induction selectors using members_induction with
  | uncut t n hn =>
      rw [cleanMembers_of_uncut hn, cleaned]
      split
      · exact ⟨{}, .nil _, outside_start⟩
      · obtain ⟨r, hr⟩ := hmember h hl
        rw [List.map_singleton, joinMembers_singleton]
        exact ⟨_, hr, r, rfl⟩
  | cut u rest hu hn ih =>
      obtain ⟨hlevel, hrest⟩ := levelAfter_zero_of_append hflat
      rw [hu] at hrest
      obtain ⟨k, hk, hcomma⟩ := h.exists_of_append
      have hks := hk.settled (settled_code _ _)
      obtain ⟨r, rfl⟩ := hks.eq_code ((hk.quoting (settled_code _ _)).trans hu)
        (hk.stack_eq_nil hlevel (bracketLevel_of_levelAfter hn))
      cases hcomma with
      | cons _ hnext _ ht =>
          cases hnext
          obtain ⟨l', hl', houtside⟩ := ih ht hrest
          rw [cleanMembers_of_cut hu hn, cleaned]
          split
          · exact ⟨l', hl', houtside⟩
          · obtain ⟨r', hr⟩ := hmember hk ⟨r, rfl⟩
            cases hms : cleanMembers rest with
            | nil =>
                rw [List.append_nil, List.map_singleton, joinMembers_singleton]
                exact ⟨_, hr, r', rfl⟩
            | cons m ms =>
                rw [hms] at hl'
                rw [List.singleton_append, List.map_cons, List.map_cons, joinMembers_cons_cons]
                exact ⟨l', hr.append (.cons rfl rfl (by simp) (.cons rfl rfl (by simp) hl')),
                  houtside⟩

end List

/-! ## Blocks -/

/-- An opening brace of a plain text stands in code. -/
theorem Lexing.next_open {l l' : Lexing} (hs : l.Settled) (hcode : l.mode.quoting = .code)
    (hadmits : l.mode.admits '{' = true) (hnext : l.next '{' = some l') :
    l' = ⟨.code .fresh, .curly :: l.stack⟩ := by
  obtain ⟨mode, stack⟩ := l
  rcases Mode.code_or_url hs.outside hcode with ⟨r, heq⟩ | hurl
  · obtain rfl : mode = .code r := heq
    exact (Option.some.inj hnext).symm
  · rw [Mode.not_url_of_brace (Or.inl rfl) hadmits] at hurl
    cases hurl

/-- **A block is read as a text of its own**: up to its end it does not close
    the brace that opens it. -/
theorem Reads.exists_block {before core : List Char} {l : Lexing} {n : Nat}
    (h : Reads {} (before ++ '{' :: core) l) (hcode : Quoting.code.after before = .code)
    (hlevel : levelAfter braces .code 1 core = some n) :
    ∃ k l', Reads {} before k ∧ k.mode.quoting = .code ∧ Reads {} core l' ∧
      l = l'.within (.curly :: k.stack) := by
  obtain ⟨k, hk, hopen⟩ := h.exists_of_append
  have hquoting : k.mode.quoting = .code := (hk.quoting (settled_code _ _)).trans hcode
  cases hopen with
  | cons hadmits hnext _ hcore =>
      obtain rfl := Lexing.next_open (hk.settled (settled_code _ _)) hquoting hadmits hnext
      have hinside : Reads (Lexing.within {} (.curly :: k.stack)) core l := hcore
      obtain ⟨l', hl', heq⟩ := hinside.exists_without (settled_code _ _) hlevel
      exact ⟨k, l', hk, hquoting, hl', heq⟩

/-- Where a closing brace can follow: in a string, or in code whose innermost
    open bracket is a brace. -/
structure Lexing.Closable (l : Lexing) : Prop where
  settled : l.Settled
  url : l.mode.isUrl = false
  curly : l.mode.quoting = .code → (l.stack ++ [Bracket.curly]).head? = some .curly

theorem Lexing.Closable.of_alike {l l' : Lexing} (h : l'.Closable) (hs : l.Settled)
    (halike : l.Alike l') : l.Closable where
  settled := hs
  url := halike.url ▸ h.url
  curly := fun hcode => halike.stack ▸ h.curly (halike.string.mpr hcode)

/-- A brace in a string is a character like others. -/
theorem Mode.exists_nextString {quote : Char} (hquote : isQuote quote = true) (stretch : Stretch) :
    ∃ m, Mode.nextString quote stretch '}' = some m ∧ m ≠ .comment := by
  have hne : '}' ≠ quote := by
    rintro rfl
    cases hquote
  have hplain : Mode.inString quote '}' = some (.string quote .plain) := by
    rw [Mode.inString, if_neg hne]
    rfl
  cases stretch with
  | escaped => exact ⟨_, rfl, by simp⟩
  | plain => exact ⟨_, hplain, by simp⟩
  | hex n => exact ⟨_, hplain, by simp⟩
  | carriage => exact ⟨_, hplain, by simp⟩

/-- **The brace that closes a block** is read. -/
theorem Lexing.Closable.reads_close {l : Lexing} (h : l.Closable) :
    ∃ l', Reads (l.within [.curly]) ['}'] l' := by
  obtain ⟨mode, stack⟩ := l
  cases mode with
  | code r =>
      cases stack with
      | nil => exact ⟨_, .cons rfl rfl (by simp) (.nil _)⟩
      | cons b stack =>
          have hb : some b = some Bracket.curly := h.curly rfl
          obtain rfl := Option.some.inj hb
          exact ⟨_, .cons rfl rfl (by simp) (.nil _)⟩
  | comment => exact absurd rfl h.settled.outside.1
  | star => exact absurd rfl h.settled.outside.2
  | string quote stretch =>
      have hquote : isQuote quote = true := by
        have hproper := h.settled.proper
        cases stretch <;> exact hproper
      obtain ⟨m, hm, hcomment⟩ := Mode.exists_nextString hquote stretch
      refine ⟨⟨m, stack ++ [.curly]⟩, .cons rfl ?_ hcomment (.nil _)⟩
      show (Mode.nextString quote stretch '}').bind _ = _
      rw [hm]
      rfl
  | _ => cases h.url

section Rule

variable {cls selectors body : List Char} {k l : Lexing} (hcls : IsScopeName cls)
  (hsel : Reads {} selectors k) (hk : k.Outside)
  (hflat : levelAfter braces .code 0 selectors = some 0) (hbody : Reads {} body l)

include hcls hsel hk hflat hbody

/-- The text of a scoped rule up to its closing brace. -/
theorem reads_scopedOpen :
    Reads {} (joinMembers ((cleanMembers selectors).map (scopeMember cls)) ++ '{' :: body)
      (l.within [.curly]) := by
  obtain ⟨_, hlist, r, rfl⟩ := reads_scopedList hcls hsel hk hflat
  exact hlist.append (.cons rfl rfl (by simp) (hbody.within (settled_code _ _) [.curly]))

/-- **A scoped rule** is read when its parts are, and closes its block when
    the block closes its strings and brackets. -/
theorem reads_scopedRule (hclose : l.Closable) :
    ∃ l', Reads {} (sheetText cls [.rule selectors body]) l' ∧ (l.Outside → l'.Outside) := by
  rw [sheetText_singleton, scoped?_rule, hcls.isClassName.scopeName_eq]
  split
  · exact ⟨{}, .nil _, fun _ => outside_start⟩
  · obtain ⟨l', hl'⟩ := hclose.reads_close
    have hopen := reads_scopedOpen hcls hsel hk hflat hbody
    refine ⟨l', hopen.append hl', ?_⟩
    rintro ⟨r, rfl⟩
    cases hl' with
    | cons _ hnext _ hnil =>
        cases hnil
        cases hnext
        exact outside_start

end Rule

/-- **A grouping at-rule** is read when its heading and its sheet are. -/
theorem reads_scopedGroup {cls heading : List Char} {items : List Item} {k l : Lexing}
    (hheading : Reads {} heading k) (hk : k.Outside) (hsheet : Reads {} (sheetText cls items) l)
    (hl : l.Outside) :
    ∃ l', Reads {} (sheetText cls [.group heading items]) l' ∧ l'.Outside := by
  rw [sheetText_group]
  split
  · exact ⟨{}, .nil _, outside_start⟩
  · obtain ⟨r, rfl⟩ := hk
    obtain ⟨r', rfl⟩ := hl
    have hopen : Reads ⟨.code r, []⟩ ['{', '\n'] (Lexing.within {} [.curly]) :=
      .cons rfl rfl (by simp) (.cons rfl rfl (by simp) (.nil _))
    have hclose : Reads (Lexing.within ⟨.code r', []⟩ [.curly]) ['\n', '}'] {} :=
      .cons rfl rfl (by simp) (.cons rfl rfl (by simp) (.nil _))
    exact ⟨{}, ((hheading.append hopen).append
      (hsheet.within (settled_code _ _) [.curly])).append hclose, outside_start⟩

/-! ## Lines -/

/-- **The lines of two sheets** are read in turn. -/
theorem reads_sheetText_append {cls : List Char} {a b : List Item} {k l : Lexing}
    (ha : Reads {} (sheetText cls a) k) (hk : k.Outside) (hb : Reads {} (sheetText cls b) l) :
    ∃ l', Reads {} (sheetText cls (a ++ b)) l' ∧ (l.Outside → l'.Outside) := by
  rw [sheetText] at ha hb
  rw [sheetText, scopedItems_append]
  cases hlines : scopedItems cls a with
  | nil => exact ⟨l, hb, id⟩
  | cons line lines =>
      rw [hlines] at ha
      cases hlines' : scopedItems cls b with
      | nil =>
          rw [List.append_nil]
          exact ⟨k, ha, fun _ => hk⟩
      | cons line' lines' =>
          rw [hlines'] at hb
          obtain ⟨r, rfl⟩ := hk
          rw [joinLines_append (List.cons_ne_nil _ _) (List.cons_ne_nil _ _)]
          exact ⟨l, ha.append (.cons rfl rfl (by simp) hb), id⟩

end PageLoom.Css
