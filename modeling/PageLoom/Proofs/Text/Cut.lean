import PageLoom.Text.Search

/-!
# Cuts — where a text is found and what the parts are

    A text is cut at the first occurrence of another (`cutAt_eq_some_iff`),
    and only a text without any occurrence is not cut (`cutAt_eq_none_iff`).
    The parts between all the occurrences of a character are told by
    themselves alone: they are put together again with the character between
    them, and none of them holds it (`splitAtChar_eq_iff`).
-/

namespace PageLoom.Text

theorem afterLead_eq_none_iff {lead cs : List Char} :
    afterLead lead cs = none ↔ ¬lead <+: cs := by
  constructor
  · rintro h ⟨rest, hrest⟩
    rw [afterLead_eq_some_iff.mpr hrest.symm] at h
    cases h
  · intro h
    refine Option.eq_none_iff_forall_ne_some.mpr fun rest hrest => ?_
    exact h ⟨rest, (afterLead_eq_some_iff.mp hrest).symm⟩

/-- **A text is cut** unless what it is cut at occurs nowhere. -/
theorem cutAt_eq_none_iff {needle cs : List Char} :
    cutAt needle cs = none ↔ ¬needle <:+: cs := by
  induction cs with
  | nil =>
      rw [cutAt, Option.map_eq_none_iff, afterLead_eq_none_iff, List.infix_nil, List.prefix_nil]
  | cons c cs ih =>
      rw [cutAt, List.infix_cons_iff, not_or]
      cases hlead : afterLead needle (c :: cs) with
      | some rest =>
          refine iff_of_false (Option.some_ne_none _) ?_
          rintro ⟨hstart, -⟩
          rw [afterLead_eq_none_iff.mpr hstart] at hlead
          cases hlead
      | none =>
          show Option.map _ _ = none ↔ _
          rw [Option.map_eq_none_iff, ih]
          exact (and_iff_right (afterLead_eq_none_iff.mp hlead)).symm

theorem occurs_iff {needle cs : List Char} : occurs needle cs = true ↔ needle <:+: cs := by
  rw [occurs, Option.isSome_iff_ne_none, ne_eq, cutAt_eq_none_iff, Classical.not_not]

theorem occurs_cons (needle cs : List Char) (c : Char) (h : occurs needle cs = true) :
    occurs needle (c :: cs) = true :=
  occurs_iff.mpr (List.infix_cons (occurs_iff.mp h))

/-- No occurrence starts before the one that a text is cut at. -/
theorem length_le_of_cutAt {needle cs before after x y : List Char}
    (h : cutAt needle cs = some (before, after)) (hcs : cs = x ++ (needle ++ y)) :
    before.length ≤ x.length := by
  induction cs generalizing before x with
  | nil =>
      obtain ⟨rest, -, hcut⟩ := Option.map_eq_some_iff.mp h
      obtain ⟨rfl, -⟩ := Prod.mk.inj hcut
      exact Nat.zero_le _
  | cons c cs ih =>
      rw [cutAt] at h
      cases hlead : afterLead needle (c :: cs) with
      | some rest =>
          rw [hlead] at h
          obtain ⟨rfl, -⟩ := Prod.mk.inj (Option.some.inj h)
          exact Nat.zero_le _
      | none =>
          rw [hlead] at h
          obtain ⟨⟨b, a⟩, hcut, heq⟩ := Option.map_eq_some_iff.mp h
          obtain ⟨rfl, rfl⟩ := Prod.mk.inj heq
          cases x with
          | nil => exact absurd ⟨y, hcs.symm⟩ (afterLead_eq_none_iff.mp hlead)
          | cons d x => exact Nat.succ_le_succ (ih hcut (List.cons.inj hcs).2)

/-- **A text is cut at the first occurrence.** -/
theorem cutAt_eq_some_iff {needle cs before after : List Char} :
    cutAt needle cs = some (before, after) ↔
      cs = before ++ (needle ++ after) ∧
        ∀ x y, cs = x ++ (needle ++ y) → before.length ≤ x.length := by
  constructor
  · intro h
    rw [← List.append_assoc]
    exact ⟨cutAt_eq_some h, fun x y => length_le_of_cutAt h⟩
  · rintro ⟨hcs, hfirst⟩
    cases hcut : cutAt needle cs with
    | none =>
        refine absurd ⟨before, after, ?_⟩ (cutAt_eq_none_iff.mp hcut)
        rw [hcs, List.append_assoc]
    | some cut =>
        obtain ⟨b, a⟩ := cut
        have hcs' : cs = b ++ (needle ++ a) := by
          rw [← List.append_assoc]
          exact cutAt_eq_some hcut
        have hlength : b.length = before.length :=
          Nat.le_antisymm (length_le_of_cutAt hcut hcs) (hfirst b a hcs')
        obtain ⟨rfl, hrest⟩ := List.append_inj (hcs'.symm.trans hcs) hlength
        rw [List.append_cancel_left hrest]

/-- Whether the occurrence of `needle` between two texts is the first. -/
def IsFirst (needle before after : List Char) : Prop :=
  ∀ x y, before ++ (needle ++ after) = x ++ (needle ++ y) → before.length ≤ x.length

theorem cutAt_eq_some_iff_isFirst {needle cs before after : List Char} :
    cutAt needle cs = some (before, after) ↔
      cs = before ++ (needle ++ after) ∧ IsFirst needle before after := by
  rw [cutAt_eq_some_iff]
  refine and_congr_right ?_
  rintro rfl
  rfl

/-- A text has one first occurrence. -/
theorem IsFirst.unique {needle before after before' after' : List Char}
    (h : IsFirst needle before after) (h' : IsFirst needle before' after')
    (heq : before ++ (needle ++ after) = before' ++ (needle ++ after')) :
    before = before' ∧ after = after' := by
  have hcut := cutAt_eq_some_iff_isFirst.mpr ⟨rfl, h⟩
  rw [cutAt_eq_some_iff_isFirst.mpr ⟨heq, h'⟩] at hcut
  exact Prod.mk.inj (Option.some.inj hcut.symm)

/-- Nothing after an occurrence is lost when a text is cut at the first. -/
theorem suffix_of_cutAt {needle cs before after x y : List Char}
    (h : cutAt needle cs = some (before, after)) (hcs : cs = x ++ (needle ++ y)) : y <:+ after := by
  obtain ⟨hfirst, -⟩ := cutAt_eq_some_iff.mp h
  have hlength := congrArg List.length (hfirst.symm.trans hcs)
  have hle := length_le_of_cutAt h hcs
  simp only [List.length_append] at hlength
  have hy : y <:+ cs := by
    rw [hcs, ← List.append_assoc]
    exact List.suffix_append _ _
  have hafter : after <:+ cs := by
    rw [hfirst, ← List.append_assoc]
    exact List.suffix_append _ _
  exact List.suffix_of_suffix_length_le hy hafter (by omega)

/-- **A text is cut at a character** unless the character is not there. -/
theorem cutAtChar_eq_none_iff {x : Char} {cs : List Char} : cutAtChar x cs = none ↔ x ∉ cs := by
  induction cs with
  | nil => exact iff_of_true rfl List.not_mem_nil
  | cons c cs ih =>
      rw [cutAtChar, List.mem_cons, not_or]
      by_cases hc : c = x
      · rw [if_pos hc]
        exact iff_of_false (Option.some_ne_none _) fun h => h.1 hc.symm
      · rw [if_neg hc, Option.map_eq_none_iff, ih]
        exact (and_iff_right (Ne.symm hc)).symm

/-- A character that is not there cuts nothing. -/
theorem cutAtChar_of_not_mem {x : Char} {cs : List Char} (h : x ∉ cs) :
    cutAtChar x cs = none :=
  cutAtChar_eq_none_iff.mpr h

/-- There is at least one part. -/
theorem splitAtChar_ne_nil (x : Char) (cs : List Char) : splitAtChar x cs ≠ [] := by
  cases cs with
  | nil => exact List.cons_ne_nil _ _
  | cons c cs =>
      rw [splitAtChar]
      cases splitAtChar x cs with
      | nil => exact List.cons_ne_nil _ _
      | cons p ps =>
          show (if c = x then [] :: p :: ps else (c :: p) :: ps) ≠ []
          split
          · exact List.cons_ne_nil _ _
          · exact List.cons_ne_nil _ _

/-- A separator ends an empty part. -/
theorem splitAtChar_self (x : Char) (cs : List Char) :
    splitAtChar x (x :: cs) = [] :: splitAtChar x cs := by
  obtain ⟨part, parts, hsplit⟩ := List.exists_cons_of_ne_nil (splitAtChar_ne_nil x cs)
  rw [splitAtChar, hsplit]
  exact if_pos rfl

/-- A text without separators joins the first part. -/
theorem splitAtChar_append {x : Char} {a cs part : List Char} {parts : List (List Char)}
    (ha : x ∉ a) (h : splitAtChar x cs = part :: parts) :
    splitAtChar x (a ++ cs) = (a ++ part) :: parts := by
  induction a with
  | nil => exact h
  | cons c a ih =>
      have hc : c ≠ x := fun hc => ha (hc ▸ List.mem_cons_self)
      rw [List.cons_append, splitAtChar, ih fun hin => ha (List.mem_cons_of_mem _ hin)]
      exact if_neg hc

/-- **Parts that are put together** come apart again. -/
theorem splitAtChar_join {x : Char} {part : List Char} {parts : List (List Char)}
    (hpart : x ∉ part) (hparts : ∀ p ∈ parts, x ∉ p) :
    splitAtChar x (part ++ parts.flatMap (x :: ·)) = part :: parts := by
  induction parts generalizing part with
  | nil =>
      have hone := splitAtChar_append hpart (show splitAtChar x [] = [[]] from rfl)
      rw [List.flatMap_nil, hone, List.append_nil]
  | cons p parts ih =>
      obtain ⟨hp, hparts⟩ := List.forall_mem_cons.mp hparts
      have hrest : splitAtChar x ((p :: parts).flatMap (x :: ·)) = [] :: p :: parts := by
        rw [List.flatMap_cons, List.cons_append, splitAtChar_self, ih hp hparts]
      rw [splitAtChar_append hpart hrest, List.append_nil]

/-- **The parts** between the occurrences of a character. -/
theorem splitAtChar_eq_iff {x : Char} {cs part : List Char} {parts : List (List Char)} :
    splitAtChar x cs = part :: parts ↔
      cs = part ++ parts.flatMap (x :: ·) ∧ x ∉ part ∧ ∀ p ∈ parts, x ∉ p := by
  constructor
  · intro h
    induction cs generalizing part parts with
    | nil =>
        obtain ⟨rfl, rfl⟩ := List.cons.inj h
        exact ⟨rfl, List.not_mem_nil, List.forall_mem_nil _⟩
    | cons c cs ih =>
        obtain ⟨p, ps, hsplit⟩ := List.exists_cons_of_ne_nil (splitAtChar_ne_nil x cs)
        obtain ⟨hcs, hp, hps⟩ := ih hsplit
        by_cases hc : c = x
        · subst hc
          rw [splitAtChar_self, hsplit] at h
          obtain ⟨rfl, rfl⟩ := List.cons.inj h
          exact ⟨congrArg (c :: ·) hcs, List.not_mem_nil, List.forall_mem_cons.mpr ⟨hp, hps⟩⟩
        · -- the character joins the first part of the rest
          have hone : x ∉ [c] := fun hin => hc (List.mem_singleton.mp hin).symm
          have hcons := splitAtChar_append hone hsplit
          obtain ⟨rfl, rfl⟩ := List.cons.inj (hcons.symm.trans h)
          refine ⟨congrArg (c :: ·) hcs, fun hin => ?_, hps⟩
          rcases List.mem_cons.mp hin with hx | hin
          · exact hc hx.symm
          · exact hp hin
  · rintro ⟨rfl, hpart, hparts⟩
    exact splitAtChar_join hpart hparts

end PageLoom.Text
