import PageLoom.Proofs.Css.Pieces
import PageLoom.Proofs.Css.Items

/-!
# Scoped rules — what a reader meets in a rule after scoping

    Scoping looks for the brace that ends a selector list without regard to
    strings; a reader does not.  So a rule may be longer for the reader than
    it was for scoping, and the members that begin after the brace scoping
    took were never rewritten.  These are the members a rule exposes
    (`exposedMembers`): none at all when the list keeps its strings closed.
    A list that starts with an at-sign once blank members are gone is the
    other way out: it turns into the heading of an at-rule.

    A reader meets confined members only in a scoped rule exactly when the
    members it exposes are confined (`meetsConfined_rule`).
-/

namespace PageLoom.Css

open Text

/-- Whether the members that a reader starting at `r` meets in a text are all
    confined. -/
def MeetsConfined (cls : List Char) (r : Reading) (t : List Char) : Prop :=
  ∀ heading ∈ ruleHeadings r t, ∀ member ∈ selectorMembers heading,
    MemberConfined cls (trim member)

theorem confined_iff {cls t : List Char} : Confined cls t ↔ MeetsConfined cls {} t := by
  refine forall_congr' fun heading => forall_congr' fun _ => forall_congr' fun member => ?_
  rw [isMember_iff_mem]

theorem meetsConfined_of_no_brace {t : List Char} (h : '{' ∉ t) (cls : List Char) (r : Reading) :
    MeetsConfined cls r t := by
  intro heading hheading
  rw [ruleHeadings_of_no_brace h] at hheading
  cases hheading

theorem meetsConfined_append {cls : List Char} {r : Reading} {a b : List Char} :
    MeetsConfined cls r (a ++ b) ↔ MeetsConfined cls r a ∧ MeetsConfined cls (r.after a) b := by
  rw [MeetsConfined, ruleHeadings_append]
  exact List.forall_mem_append

/-- **The members a rule exposes**: those that a reader meets in it and that
    scoping did not take for members. -/
def exposedMembers (selectors body : List Char) : List (List Char) :=
  let members := cleanMembers selectors
  let headings := ruleHeadings {} (joinMembers members ++ '{' :: body)
  if body.isEmpty || members.isEmpty then []
  else if (joinMembers members).head? = some '@' then headings.flatMap selectorMembers
  else headings.flatMap fun heading => (selectorMembers heading).drop members.length

/-! ## Headings of at-rules -/

theorem head?_trim_append {h : List Char} (hh : AllBlank h) {c : Char} (hc : isBlank c = false)
    (x : List Char) : (trim (h ++ c :: x)).head? = some c := by
  have hsolid : Solid [c] := by
    constructor <;> rintro d ⟨rfl⟩ <;> exact hc
  obtain ⟨rest, hrest⟩ := prefix_trim hh hsolid x
  have hassoc : h ++ [c] ++ x = h ++ c :: x := by
    rw [List.append_assoc, List.singleton_append]
  rw [hassoc] at hrest
  rw [← hrest]
  rfl

/-- A heading is an at-rule's by its first character that is not blank. -/
theorem isAtHeading_append {h : List Char} (hh : AllBlank h) {c : Char} (hc : isBlank c = false)
    (x : List Char) : isAtHeading (h ++ c :: x) = (c == '@') := by
  rw [isAtHeading, head?_trim_append hh hc]
  rfl

/-- The block of an at-rule holds style rules by the at-rule's name. -/
theorem opensGroup_append {h : List Char} (hh : AllBlank h) (x : List Char) :
    opensGroup (h ++ '@' :: x) = isGrouping ('@' :: x) := by
  have hat : isAtHeading (h ++ '@' :: x) = true := isAtHeading_append hh (by decide) x
  have htrim : trim (h ++ '@' :: x) = trim ('@' :: x) := by
    have happend := trim_append hh allBlank_nil ('@' :: x)
    rwa [List.append_nil] at happend
  have hhead : (trim ('@' :: x)).head? = some '@' :=
    head?_trim_append allBlank_nil (by decide) x
  obtain ⟨b, hb, hsplit, -⟩ := exists_trimEnd ('@' :: x)
  have hstart : trimEnd ('@' :: x) = trim ('@' :: x) := by
    show _ = trimEnd (trimStart ('@' :: x))
    rw [trimStart_of_head]
    rintro c ⟨rfl⟩
    decide
  rw [hstart] at hsplit
  rw [opensGroup, hat, htrim, Bool.true_and]
  cases hkept : trim ('@' :: x) with
  | nil =>
      rw [hkept] at hhead
      cases hhead
  | cons c t =>
      rw [hkept] at hsplit
      rw [hsplit, isGrouping_append hb]

/-! ## One rule -/

/-- **The headings of joined members with a block**, once the block's brace is
    found. -/
theorem ruleHeadings_block {s e y z : List Char} {n : Nat}
    (hs : levelAfter braces .code 0 s = some 0) (he : (Quoting.code.after s).after e = .code)
    (hlevel : levelAfter braces (Quoting.code.after s) 0 e = some 0)
    (hy : levelAfter braces .code 1 y = some n) (hz : '{' ∉ z) (h : List Char) :
    ruleHeadings ⟨.code, 0, h⟩ (s ++ (e ++ '{' :: y) ++ z) =
      if isAtHeading (h ++ (s ++ e)) then
        if opensGroup (h ++ (s ++ e)) then ruleHeadings ⟨.code, 0, []⟩ y else []
      else [h ++ (s ++ e)] := by
  have hcode : Quoting.code.after (s ++ e) = .code := by
    rw [Quoting.after_append, he]
  have hflat : levelAfter braces .code 0 (s ++ e) = some 0 := by
    rw [levelAfter_append_of_some hs, hlevel]
  rw [ruleHeadings_append, ruleHeadings_of_no_brace hz, List.append_nil, ← List.append_assoc]
  exact ruleHeadings_of_opening hcode hflat hy h

/-- A text that opens no brace has no headings, whatever follows without one. -/
theorem ruleHeadings_flat {s b z : List Char} (hs : levelAfter braces .code 0 s = some 0)
    (hb : levelAfter braces (Quoting.code.after s) 0 b = some 0) (hz : '{' ∉ z) (h : List Char) :
    ruleHeadings ⟨.code, 0, h⟩ (s ++ b ++ z) = [] := by
  have hflat : levelAfter braces .code 0 (s ++ b) = some 0 := by
    rw [levelAfter_append_of_some hs, hb]
  rw [ruleHeadings_append, ruleHeadings_of_no_brace hz, (reading_flat hflat h).2]
  rfl

/-- Past the joined members, only the members that begin later are left. -/
theorem drop_join {ms : List (List Char)} (hne : ms ≠ []) (h : Joinable ms) (t : List Char) :
    (selectorMembers (joinMembers ms ++ t)).drop ms.length =
      laterMembers (Quoting.code.after (joinMembers ms)) (lastLevel ms) t := by
  obtain ⟨heads, hheads, hlen, -⟩ := members_join hne h t
  rw [hheads, ← hlen, List.drop_left]

/-- **The at-rule that joined members make** is the one their first member
    names, and rewriting does not touch that member. -/
theorem opensGroup_join {f : List Char → List Char} {m : List Char} (hm : m.head? = some '@')
    (hf : f m = m) {h : List Char} (hh : AllBlank h) (ms : List (List Char)) (e : List Char) :
    opensGroup (h ++ (joinMembers ((m :: ms).map f) ++ e)) =
      opensGroup (joinMembers (m :: ms) ++ e) := by
  cases m with
  | nil => cases hm
  | cons c m =>
      obtain rfl : c = '@' := Option.some.inj hm
      rw [List.map_cons, hf]
      cases ms with
      | nil =>
          rw [List.map_nil, joinMembers_singleton]
          exact (opensGroup_append hh (m ++ e)).trans (opensGroup_append allBlank_nil (m ++ e)).symm
      | cons m' ms =>
          -- the name ends at the comma at the latest
          have hname : ∀ (h x : List Char), AllBlank h →
              opensGroup (h ++ ('@' :: m ++ ',' :: x)) = isGrouping ('@' :: m) := fun h x hh =>
            (opensGroup_append hh (m ++ ',' :: x)).trans (isGrouping_stop (by decide) '@' m x)
          rw [List.map_cons, joinMembers_cons_cons, joinMembers_cons_cons, List.append_assoc,
            List.append_assoc, List.cons_append, List.cons_append]
          exact (hname h _ hh).trans (hname [] _ allBlank_nil).symm

/-! ## One rule -/

section Rule

variable {cls h : List Char} {ms : List (List Char)} {e y z w : List Char} {n : Nat}

/-- Joined members start an at-rule exactly when their first member does. -/
theorem head?_join {m : List Char} (hm : m ≠ []) (ms : List (List Char)) (t : List Char) :
    (joinMembers (m :: ms) ++ t).head? = m.head? := by
  obtain ⟨r, hr⟩ := exists_joinMembers_cons ms
  cases m with
  | nil => exact absurd rfl hm
  | cons c m =>
      rw [hr]
      rfl

/-- **An at-rule out of a selector list** has the same headings before and
    after scoping. -/
theorem ruleHeadings_of_at (hcls : IsClassName cls) {m : List Char} (hm : m.head? = some '@')
    (hjoin : Joinable (m :: ms)) (hs : levelAfter braces .code 0 (joinMembers (m :: ms)) = some 0)
    (he : (Quoting.code.after (joinMembers (m :: ms))).after e = .code)
    (hlevel : levelAfter braces (Quoting.code.after (joinMembers (m :: ms))) 0 e = some 0)
    (hy : levelAfter braces .code 1 y = some n) (hz : '{' ∉ z) (hw : '{' ∉ w)
    (hh : AllBlank h) :
    ruleHeadings ⟨.code, 0, h⟩
        (joinMembers ((m :: ms).map (scopeMember cls)) ++ (e ++ '{' :: y) ++ z) =
      ruleHeadings {} (joinMembers (m :: ms) ++ (e ++ '{' :: y) ++ w) := by
  have hlead := exchangesLead_scopeMember hcls
  have hkept : scopeMember cls m = m := if_pos (by rw [hm]; rfl)
  have hafter := after_joinMembers_map hlead hjoin
  have hat : ∀ (h : List Char) (l : List (List Char)), AllBlank h →
      isAtHeading (h ++ (joinMembers (m :: l) ++ e)) = true := by
    intro h l hh
    obtain ⟨r, hr⟩ := exists_joinMembers_cons l
    cases m with
    | nil => cases hm
    | cons c m =>
        obtain rfl : c = '@' := Option.some.inj hm
        rw [hr]
        exact isAtHeading_append hh (by decide) _
  have hmap : isAtHeading (h ++ (joinMembers ((m :: ms).map (scopeMember cls)) ++ e)) = true := by
    rw [List.map_cons, hkept]
    exact hat h _ hh
  have hself : isAtHeading ([] ++ (joinMembers (m :: ms) ++ e)) = true := hat [] ms allBlank_nil
  rw [ruleHeadings_block (braces_joinMembers_map hlead hjoin hs) (by rw [hafter]; exact he)
    (by rw [hafter]; exact hlevel) hy hz, ruleHeadings_block hs he hlevel hy hw, hmap, hself,
    opensGroup_join hm hkept hh]
  rfl

/-- **A style rule out of a selector list** has one heading: the joined members
    and what follows them before the brace. -/
theorem ruleHeadings_of_style {m : List Char} (hhead : ∀ c, m.head? = some c → isBlank c = false)
    (hm : m ≠ []) (hat : m.head? ≠ some '@')
    (hs : levelAfter braces .code 0 (joinMembers (m :: ms)) = some 0)
    (he : (Quoting.code.after (joinMembers (m :: ms))).after e = .code)
    (hlevel : levelAfter braces (Quoting.code.after (joinMembers (m :: ms))) 0 e = some 0)
    (hy : levelAfter braces .code 1 y = some n) (hz : '{' ∉ z) (hh : AllBlank h) :
    ruleHeadings ⟨.code, 0, h⟩ (joinMembers (m :: ms) ++ (e ++ '{' :: y) ++ z) =
      [h ++ (joinMembers (m :: ms) ++ e)] := by
  have hnot : isAtHeading (h ++ (joinMembers (m :: ms) ++ e)) = false := by
    obtain ⟨r, hr⟩ := exists_joinMembers_cons ms
    cases m with
    | nil => exact absurd rfl hm
    | cons c m =>
        rw [hr, List.append_assoc, List.cons_append, isAtHeading_append hh (hhead c rfl)]
        exact beq_eq_false_iff_ne.mpr fun hc => hat (by rw [hc]; rfl)
  rw [ruleHeadings_block hs he hlevel hy hz, hnot]
  rfl

/-- **A scoped style rule** has one heading: the scoped members and what follows
    them before the brace. -/
theorem ruleHeadings_of_scoped (hcls : IsClassName cls) {m : List Char} (hm : Solid m)
    (hne : m ≠ []) (hat : m.head? ≠ some '@') (hjoin : Joinable (m :: ms))
    (hs : levelAfter braces .code 0 (joinMembers (m :: ms)) = some 0)
    (he : (Quoting.code.after (joinMembers (m :: ms))).after e = .code)
    (hlevel : levelAfter braces (Quoting.code.after (joinMembers (m :: ms))) 0 e = some 0)
    (hy : levelAfter braces .code 1 y = some n) (hz : '{' ∉ z) (hh : AllBlank h) :
    ruleHeadings ⟨.code, 0, h⟩
        (joinMembers ((m :: ms).map (scopeMember cls)) ++ (e ++ '{' :: y) ++ z) =
      [h ++ (joinMembers ((m :: ms).map (scopeMember cls)) ++ e)] := by
  have hlead := exchangesLead_scopeMember hcls
  have hafter := after_joinMembers_map hlead hjoin
  have hsmap := braces_joinMembers_map hlead hjoin hs
  rw [← hafter] at he hlevel
  obtain ⟨c, t, hc, hblank, hiff⟩ := exists_head_scopeMember cls hm hne
  -- the first scoped member is one that a style rule can start with
  refine ruleHeadings_of_style ?_ ?_ ?_ hsmap he hlevel hy hz hh
  · rw [hc]
    rintro d ⟨rfl⟩
    exact hblank
  · rw [hc]
    exact List.cons_ne_nil c t
  · rw [hc]
    exact fun hd => hat (hiff.mp (Option.some.inj hd))

/-- **What a reader meets in scoped members**: the members themselves, which
    are confined, and those that begin after them. -/
theorem meets_join (hcls : IsClassName cls) (hne : ms ≠ []) (hjoin : Joinable ms)
    (hh : AllBlank h) :
    (∀ m ∈ selectorMembers (h ++ (joinMembers (ms.map (scopeMember cls)) ++ e)),
        MemberConfined cls (trim m)) ↔
      ∀ m ∈ (selectorMembers (joinMembers ms ++ e)).drop ms.length,
        MemberConfined cls (trim m) := by
  have hlead := exchangesLead_scopeMember hcls
  have hnemap : ms.map (scopeMember cls) ≠ [] := fun hnil => hne (List.map_eq_nil_iff.mp hnil)
  obtain ⟨heads, hheads, hlen, hmem⟩ := members_join hnemap (hjoin.map hlead) e
  obtain ⟨x, xs, hx, hhx⟩ :=
    selectorMembers_allBlank_append hh (joinMembers (ms.map (scopeMember cls)) ++ e)
  have hconfined : ∀ w ∈ heads, ∀ a, AllBlank a → MemberConfined cls (trim (a ++ w)) := by
    intro w hw a ha
    obtain ⟨b, m, r, rfl, hm, hb⟩ := hmem w hw
    obtain ⟨v, hv, rfl⟩ := List.mem_map.mp hm
    rw [List.append_assoc b, ← List.append_assoc a b, ← List.append_assoc (a ++ b)]
    exact memberConfined_scopeMember hcls (allBlank_append.mpr ⟨ha, hb⟩) r
  -- the lead goes to the first head, the later members are the same
  rw [drop_join hne hjoin, hhx]
  rw [hheads, after_joinMembers_map hlead hjoin, lastLevel_map hlead] at hx
  cases heads with
  | nil => exact absurd (List.map_eq_nil_iff.mp (List.length_eq_zero_iff.mp hlen.symm)) hne
  | cons w ws =>
      obtain ⟨rfl, rfl⟩ := List.cons.inj hx
      rw [List.forall_mem_cons, List.append_eq, List.forall_mem_append]
      constructor
      · rintro ⟨-, -, hlater⟩
        exact hlater
      · intro hlater
        refine ⟨hconfined w List.mem_cons_self h hh, fun v hv => ?_, hlater⟩
        exact hconfined v (List.mem_cons_of_mem _ hv) [] allBlank_nil

end Rule

/-- The members that a rule exposes, unless scoping drops it. -/
theorem exposedMembers_of_ne_nil {selectors body : List Char} (hbody : body ≠ [])
    (hne : cleanMembers selectors ≠ []) :
    exposedMembers selectors body =
      if (joinMembers (cleanMembers selectors)).head? = some '@' then
        (ruleHeadings {} (joinMembers (cleanMembers selectors) ++ '{' :: body)).flatMap
          selectorMembers
      else
        (ruleHeadings {} (joinMembers (cleanMembers selectors) ++ '{' :: body)).flatMap
          fun heading => (selectorMembers heading).drop (cleanMembers selectors).length := by
  rw [exposedMembers, List.isEmpty_eq_false_iff.mpr hbody, List.isEmpty_eq_false_iff.mpr hne]
  rfl

/-- **A scoped rule meets confined members only** exactly when the members it
    exposes are confined.  `core` is the block up to a semicolon that ends the
    piece. -/
theorem meetsConfined_rule {cls selectors core z h : List Char} {n : Nat} (hcls : IsClassName cls)
    (hflat : levelAfter braces .code 0 selectors = some 0)
    (hlevel : levelAfter braces (Quoting.code.after selectors) 0 ('{' :: core) = some n)
    (hz : z = [] ∨ z = [';'] ∧ n = 0) (hbody : core ++ z ≠ []) (hne : cleanMembers selectors ≠ [])
    (hh : AllBlank h) :
    MeetsConfined cls ⟨.code, 0, h⟩
        (joinMembers ((cleanMembers selectors).map (scopeMember cls)) ++ '{' :: (core ++ z)
          ++ ['}']) ↔
      ∀ m ∈ exposedMembers selectors (core ++ z), MemberConfined cls (trim m) := by
  have hlead := exchangesLead_scopeMember hcls
  have hjoin := joinable_cleanMembers selectors
  have hs := braces_joinMembers hflat
  have hsmap := braces_joinMembers_map hlead hjoin hs
  have hafter := after_joinMembers_map hlead hjoin
  have hsolid : ∀ m ∈ cleanMembers selectors, Solid m ∧ m ≠ [] :=
    fun m hm => solid_of_mem_cleanMembers hm
  have hcore : levelAfter braces (Quoting.code.after (joinMembers (cleanMembers selectors))) 0
      ('{' :: core) = some n := by
    rw [(levelAfter_brace_congr braces (Quoting.proper_after (q := .code) trivial _)
      (Quoting.proper_after (q := .code) trivial _) (settle_after_joinMembers selectors) 0 core).1]
    exact hlevel
  have hbrace : '{' ∉ z ++ ['}'] := by
    rcases hz with rfl | ⟨rfl, -⟩ <;> decide
  have htext : ∀ s : List Char, s ++ '{' :: (core ++ z) = s ++ '{' :: core ++ z := by
    intro s
    rw [List.append_assoc, List.cons_append]
  obtain ⟨m, ms, hms⟩ := List.exists_cons_of_ne_nil hne
  rw [exposedMembers_of_ne_nil hbody hne, htext, htext, List.append_assoc, MeetsConfined]
  rw [hms] at hjoin hs hsmap hafter hsolid hcore ⊢
  cases n with
  | zero =>
      -- no brace outside strings: there is no rule at all
      rw [ruleHeadings_flat hsmap (by rw [hafter]; exact hcore) hbrace,
        ruleHeadings_flat hs hcore fun hmem => hbrace (List.mem_append_left _ hmem)]
      simp
  | succ n =>
      obtain rfl : z = [] := hz.elim id fun h => absurd h.2 (Nat.succ_ne_zero n)
      -- the first brace outside strings opens the block
      obtain ⟨e, y, hcut, he, hlevel, hy⟩ := exists_open hcore
      obtain ⟨hm, hmne⟩ := hsolid m List.mem_cons_self
      have hhead : (joinMembers (m :: ms)).head? = m.head? := by
        rw [← head?_join hmne ms [], List.append_nil]
      rw [hcut, hhead]
      by_cases hat : m.head? = some '@'
      · rw [if_pos hat,
          ruleHeadings_of_at (w := []) hcls hat hjoin hs he hlevel hy hbrace (by decide) hh]
        simp only [List.forall_mem_flatMap]
      · rw [if_neg hat, ruleHeadings_of_scoped hcls hm hmne hat hjoin hs he hlevel hy hbrace hh,
          ruleHeadings_of_style (z := []) hm.1 hmne hat hs he hlevel hy (by decide) allBlank_nil]
        simp only [List.flatMap_singleton, List.forall_mem_singleton]
        exact meets_join hcls (List.cons_ne_nil m ms) hjoin hh

/-- **After a scoped rule a new heading starts**, when the rule's piece ended
    outside strings with one block open at most. -/
theorem after_rule {cls selectors core z h : List Char} {n : Nat} (hcls : IsClassName cls)
    (hflat : levelAfter braces .code 0 selectors = some 0)
    (hlevel : levelAfter braces (Quoting.code.after selectors) 0 ('{' :: core) = some n)
    (hcode : (Quoting.code.after selectors).after ('{' :: core) = .code) (hn : n ≤ 1)
    (hz : z = [] ∨ z = [';'] ∧ n = 0) :
    Reading.after ⟨.code, 0, h⟩
        (joinMembers ((cleanMembers selectors).map (scopeMember cls)) ++ '{' :: (core ++ z)
          ++ ['}']) = ⟨.code, 0, []⟩ := by
  have hlead := exchangesLead_scopeMember hcls
  have hjoin := joinable_cleanMembers selectors
  have hs := braces_joinMembers_map hlead hjoin (braces_joinMembers hflat)
  obtain ⟨hcongr, hcongr'⟩ := levelAfter_brace_congr braces
    (Quoting.proper_after (q := .code) trivial (joinMembers (cleanMembers selectors)))
    (Quoting.proper_after (q := .code) trivial selectors) (settle_after_joinMembers selectors) 0 core
  rw [← after_joinMembers_map hlead hjoin] at hcongr hcongr'
  have hwhole : levelAfter braces .code 0
      (joinMembers ((cleanMembers selectors).map (scopeMember cls)) ++ '{' :: core) = some n := by
    rw [levelAfter_append_of_some hs, hcongr, hlevel]
  obtain ⟨hquoting, hdepth⟩ := reading_within (Nat.le_refl 0) hwhole h
  rw [Quoting.after_append, hcongr', hcode] at hquoting
  -- the reader is in one block at most, and the last brace ends it
  rcases hz with rfl | ⟨rfl, rfl⟩
  · rw [List.append_nil, Reading.after_append]
    exact next_close hquoting (Nat.le_trans hdepth hn)
  · rw [← List.cons_append, ← List.append_assoc, List.append_assoc, Reading.after_append]
    show ((Reading.after ⟨.code, 0, h⟩ _).next ';').next '}' = _
    rw [next_semicolon hquoting (Nat.le_zero.mp hdepth)]
    rfl

end PageLoom.Css
