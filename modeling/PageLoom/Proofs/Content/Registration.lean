import Mathlib.Data.String.Basic
import PageLoom.Content.Field
import PageLoom.Proofs.Assoc
import PageLoom.Proofs.Text.Cut

/-!
# Registrations — which resolver a name finds

    A registry is made by registrations.  Each is for a slot: one name, or all
    names with one start.  After any list of registrations a slot holds the
    resolver that was registered for it last (`at?_eq_some_iff`), and nothing
    if there was none (`at?_eq_none_iff`).

    Among the starts the search takes the longest that the name has
    (`longest_eq_some_iff`).  Two starts of one name are equal if they are
    equally long, so there is no other.  Hence exactly one choice is open to
    a name (`chooses_iff`), and it is told by the slots alone when no slot is
    used twice: the order of registration does not show (`Chooses.perm`).
-/

namespace PageLoom.FieldRegistry

open Text

/-- **A slot**: what a resolver is registered for. -/
inductive Slot
  /-- one name -/
  | name (name : String)
  /-- all names with one start -/
  | lead (lead : String)
  deriving DecidableEq

/-- **A registration**: a resolver for a slot. -/
structure Registration where
  slot : Slot
  resolver : Resolver

/-- The registry after a registration. -/
def Registration.apply (fields : FieldRegistry) (r : Registration) : FieldRegistry :=
  match r.slot with
  | .name name => fields.register name r.resolver
  | .lead lead => fields.registerFamily lead r.resolver

/-- A new registry after a list of registrations. -/
def afterRegistrations (rs : List Registration) : FieldRegistry :=
  rs.foldl Registration.apply {}

/-- The resolver in a slot. -/
def at? (fields : FieldRegistry) : Slot → Option Resolver
  | .name name => Assoc.get? name fields.exact
  | .lead lead => Assoc.get? lead fields.families

/-- **The last registration** for a slot. -/
def IsLast (rs : List Registration) (slot : Slot) (resolver : Resolver) : Prop :=
  ∃ before after, rs = before ++ ⟨slot, resolver⟩ :: after ∧ ∀ r ∈ after, r.slot ≠ slot

/-! ## Slots -/

/-- **A registration fills its slot** and leaves the others. -/
theorem at?_apply (fields : FieldRegistry) (r : Registration) (slot : Slot) :
    (r.apply fields).at? slot = if slot = r.slot then some r.resolver else fields.at? slot := by
  obtain ⟨used, resolver⟩ := r
  cases used with
  | name name =>
      cases slot with
      | name other => simp [Registration.apply, register, at?, Assoc.get?_insert]
      | lead other => simp [Registration.apply, register, at?]
  | lead lead =>
      cases slot with
      | name other => simp [Registration.apply, registerFamily, at?]
      | lead other => simp [Registration.apply, registerFamily, at?, Assoc.get?_insert]

theorem at?_empty (slot : Slot) : ({} : FieldRegistry).at? slot = none := by
  cases slot with
  | name => rfl
  | lead => rfl

/-- What later registrations leave of a slot. -/
theorem at?_foldl (rs : List Registration) (fields : FieldRegistry) (slot : Slot) :
    (rs.foldl Registration.apply fields).at? slot =
      ((afterRegistrations rs).at? slot).or (fields.at? slot) := by
  induction rs generalizing fields with
  | nil =>
      rw [afterRegistrations, List.foldl_nil, List.foldl_nil, at?_empty]
      rfl
  | cons r rs ih =>
      rw [afterRegistrations, List.foldl_cons, List.foldl_cons, ih, ih, at?_apply, at?_apply,
        at?_empty, Option.or_assoc]
      by_cases h : slot = r.slot
      · rw [if_pos h, if_pos h]
        rfl
      · rw [if_neg h, if_neg h]
        rfl

/-- The first registration counts where no later one is for its slot. -/
theorem at?_cons (r : Registration) (rs : List Registration) (slot : Slot) :
    (afterRegistrations (r :: rs)).at? slot =
      ((afterRegistrations rs).at? slot).or (if slot = r.slot then some r.resolver else none) := by
  rw [afterRegistrations, List.foldl_cons, at?_foldl, at?_apply, at?_empty]

/-- **A slot is empty** when nothing was registered for it. -/
theorem at?_eq_none_iff {rs : List Registration} {slot : Slot} :
    (afterRegistrations rs).at? slot = none ↔ slot ∉ rs.map Registration.slot := by
  induction rs with
  | nil => exact iff_of_true (at?_empty slot) List.not_mem_nil
  | cons r rs ih =>
      rw [at?_cons, Option.or_eq_none_iff, ih, List.map_cons, List.mem_cons, not_or, and_comm]
      by_cases h : slot = r.slot
      · simp [h]
      · simp [h]

theorem isLast_cons {r : Registration} {rs : List Registration} {slot : Slot}
    {resolver : Resolver} :
    IsLast (r :: rs) slot resolver ↔
      IsLast rs slot resolver ∨ slot ∉ rs.map Registration.slot ∧ r = ⟨slot, resolver⟩ := by
  constructor
  · rintro ⟨before, after, hrs, hafter⟩
    cases before with
    | nil =>
        obtain ⟨rfl, rfl⟩ := List.cons.inj hrs
        refine .inr ⟨?_, rfl⟩
        intro hmem
        obtain ⟨r, hr, hslot⟩ := List.mem_map.mp hmem
        exact hafter r hr hslot
    | cons first before =>
        obtain ⟨-, rfl⟩ := List.cons.inj hrs
        exact .inl ⟨before, after, rfl, hafter⟩
  · rintro (⟨before, after, rfl, hafter⟩ | ⟨hnone, rfl⟩)
    · exact ⟨r :: before, after, rfl, hafter⟩
    · refine ⟨[], rs, rfl, ?_⟩
      intro r hr hslot
      exact hnone (List.mem_map.mpr ⟨r, hr, hslot⟩)

/-- **A slot holds what was registered last.** -/
theorem at?_eq_some_iff {rs : List Registration} {slot : Slot} {resolver : Resolver} :
    (afterRegistrations rs).at? slot = some resolver ↔ IsLast rs slot resolver := by
  induction rs with
  | nil =>
      rw [afterRegistrations, List.foldl_nil, at?_empty]
      constructor
      · intro h
        cases h
      · rintro ⟨before, after, hrs, -⟩
        simp at hrs
  | cons r rs ih =>
      rw [at?_cons, Option.or_eq_some_iff, ih, at?_eq_none_iff, isLast_cons]
      refine or_congr_right (and_congr_right fun _ => ?_)
      obtain ⟨used, given⟩ := r
      by_cases h : slot = used
      · simp [h]
      · simp [h, Ne.symm h]

theorem sorted_families (rs : List Registration) :
    Assoc.Sorted (afterRegistrations rs).families := by
  have hfold : ∀ fields : FieldRegistry, Assoc.Sorted fields.families →
      Assoc.Sorted (rs.foldl Registration.apply fields).families := by
    induction rs with
    | nil => exact fun _ sorted => sorted
    | cons r rs ih =>
        intro fields sorted
        refine ih _ ?_
        obtain ⟨slot, resolver⟩ := r
        cases slot with
        | name name => exact sorted
        | lead lead => exact sorted.insert lead resolver
  exact hfold {} .nil

/-! ## The longest start -/

theorem isSome_afterLeadOf_iff {lead name : String} :
    (afterLeadOf lead name).isSome = true ↔ lead.toList <+: name.toList := by
  rw [afterLeadOf, Option.isSome_map, Option.isSome_iff_ne_none, ne_eq, afterLead_eq_none_iff,
    Classical.not_not]

/-- Two starts of one name are the same if they are equally long. -/
theorem eq_of_leads {a b name : String} (ha : a.toList <+: name.toList)
    (hb : b.toList <+: name.toList) (h : a.length = b.length) : a = b := by
  rw [← String.length_toList, ← String.length_toList] at h
  have hab := List.prefix_of_prefix_length_le ha hb (Nat.le_of_eq h)
  exact String.toList_inj.mp (hab.eq_of_length h)

/-- The search finds nothing when the name has none of the starts. -/
theorem longest_eq_none_iff {name : String} {families : List (String × Resolver)} :
    longest name families = none ↔ ∀ entry ∈ families, ¬entry.1.toList <+: name.toList := by
  induction families with
  | nil => exact iff_of_true rfl (List.forall_mem_nil _)
  | cons head rest ih =>
      obtain ⟨first, given⟩ := head
      rw [longest, List.forall_mem_cons, ← ih, ← isSome_afterLeadOf_iff]
      cases hrest : longest name rest with
      | none => simp
      | some found =>
          show (if _ then some _ else some _) = none ↔ _
          split
          · simp
          · simp

/-- **The longest start**: what the search finds is there, is a start of the
    name, and no start of the name is longer. -/
theorem of_longest {name lead : String} {resolver : Resolver}
    {families : List (String × Resolver)} (h : longest name families = some (lead, resolver)) :
    (lead, resolver) ∈ families ∧ lead.toList <+: name.toList ∧
      ∀ entry ∈ families, entry.1.toList <+: name.toList → entry.1.length ≤ lead.length := by
  induction families generalizing lead resolver with
  | nil => cases h
  | cons head rest ih =>
      obtain ⟨first, given⟩ := head
      rw [longest] at h
      cases hrest : longest name rest with
      | none =>
          -- no other start is one of the name
          have hothers := longest_eq_none_iff.mp hrest
          rw [hrest] at h
          obtain ⟨hstart, hsame⟩ := Option.ite_none_right_eq_some.mp h
          cases hsame
          refine ⟨List.mem_cons_self, isSome_afterLeadOf_iff.mp hstart, ?_⟩
          intro entry hentry hlead
          rcases List.mem_cons.mp hentry with rfl | hentry
          · exact Nat.le_refl _
          · exact absurd hlead (hothers entry hentry)
      | some found =>
          obtain ⟨other, kept⟩ := found
          obtain ⟨hmem, hlead, hlongest⟩ := ih hrest
          rw [hrest] at h
          dsimp only at h
          split at h
          case isTrue hlonger =>
              cases h
              obtain ⟨hstart, hlt⟩ := Bool.and_eq_true_iff.mp hlonger
              refine ⟨List.mem_cons_self, isSome_afterLeadOf_iff.mp hstart, ?_⟩
              intro entry hentry hentryLead
              rcases List.mem_cons.mp hentry with rfl | hentry
              · exact Nat.le_refl _
              · exact Nat.le_of_lt
                  (Nat.lt_of_le_of_lt (hlongest entry hentry hentryLead) (of_decide_eq_true hlt))
          case isFalse hshorter =>
              cases h
              refine ⟨List.mem_cons_of_mem _ hmem, hlead, ?_⟩
              intro entry hentry hentryLead
              rcases List.mem_cons.mp hentry with rfl | hentry
              · refine Nat.le_of_not_lt fun hlt => hshorter ?_
                rw [Bool.and_eq_true_iff]
                exact ⟨isSome_afterLeadOf_iff.mpr hentryLead, decide_eq_true hlt⟩
              · exact hlongest entry hentry hentryLead

/-! ## The choice -/

/-- **What is chosen for a name**: the resolver registered last for the name; if
    there is none, the one registered last for the longest start of the name
    that anything was registered for; if there is none, nothing. -/
inductive Chooses (rs : List Registration) (name : String) : Option Resolver → Prop
  | exact {resolver : Resolver} : IsLast rs (.name name) resolver → Chooses rs name (some resolver)
  | longest {lead : String} {resolver : Resolver} :
      .name name ∉ rs.map Registration.slot → IsLast rs (.lead lead) resolver →
      lead.toList <+: name.toList →
      (∀ other, .lead other ∈ rs.map Registration.slot → other.toList <+: name.toList →
        other.length ≤ lead.length) →
      Chooses rs name (some resolver)
  | none :
      .name name ∉ rs.map Registration.slot →
      (∀ lead, .lead lead ∈ rs.map Registration.slot → ¬lead.toList <+: name.toList) →
      Chooses rs name none

theorem IsLast.mem {rs : List Registration} {slot : Slot} {resolver : Resolver}
    (h : IsLast rs slot resolver) : ⟨slot, resolver⟩ ∈ rs := by
  obtain ⟨before, after, rfl, -⟩ := h
  exact List.mem_append_right before List.mem_cons_self

theorem IsLast.used {rs : List Registration} {slot : Slot} {resolver : Resolver}
    (h : IsLast rs slot resolver) : slot ∈ rs.map Registration.slot :=
  List.mem_map.mpr ⟨_, h.mem, rfl⟩

/-- A slot that is used holds something. -/
theorem mem_families_of_used {rs : List Registration} {lead : String}
    (h : .lead lead ∈ rs.map Registration.slot) :
    ∃ resolver, (lead, resolver) ∈ (afterRegistrations rs).families := by
  cases hslot : (afterRegistrations rs).at? (.lead lead) with
  | none => exact absurd h (at?_eq_none_iff.mp hslot)
  | some resolver => exact ⟨resolver, (sorted_families rs).mem_iff.mpr hslot⟩

/-- A start that is there was registered. -/
theorem isLast_of_mem_families {rs : List Registration} {entry : String × Resolver}
    (h : entry ∈ (afterRegistrations rs).families) : IsLast rs (.lead entry.1) entry.2 :=
  at?_eq_some_iff.mp ((sorted_families rs).mem_iff.mp h)

/-- What a lookup finds may be chosen. -/
theorem chooses_lookup (rs : List Registration) (name : String) :
    Chooses rs name ((afterRegistrations rs).lookup name) := by
  rw [lookup]
  cases hexact : Assoc.get? name (afterRegistrations rs).exact with
  | some resolver => exact .exact (at?_eq_some_iff.mp hexact)
  | none =>
      have hunused : .name name ∉ rs.map Registration.slot := at?_eq_none_iff.mp hexact
      cases hlongest : longest name (afterRegistrations rs).families with
      | none =>
          refine .none hunused ?_
          intro lead hused
          obtain ⟨resolver, hmem⟩ := mem_families_of_used hused
          exact longest_eq_none_iff.mp hlongest _ hmem
      | some found =>
          obtain ⟨lead, resolver⟩ := found
          obtain ⟨hmem, hlead, hothers⟩ := of_longest hlongest
          refine .longest hunused (isLast_of_mem_families hmem) hlead ?_
          intro other hused
          obtain ⟨kept, hother⟩ := mem_families_of_used hused
          exact hothers _ hother

/-- A list has one last registration for a slot. -/
theorem IsLast.unique {rs : List Registration} {slot : Slot} {a b : Resolver}
    (ha : IsLast rs slot a) (hb : IsLast rs slot b) : a = b := by
  rw [← at?_eq_some_iff] at ha hb
  exact Option.some.inj (ha.symm.trans hb)

/-- **Nothing else may be chosen.** -/
theorem Chooses.unique {rs : List Registration} {name : String} {a b : Option Resolver}
    (ha : Chooses rs name a) (hb : Chooses rs name b) : a = b := by
  cases ha with
  | exact ha =>
      cases hb with
      | exact hb => rw [ha.unique hb]
      | longest hunused => exact absurd ha.used hunused
      | none hunused => exact absurd ha.used hunused
  | @longest lead _ hunused ha hlead hothers =>
      cases hb with
      | exact hb => exact absurd hb.used hunused
      | @longest lead' _ _ hb hlead' hothers' =>
          -- each is at most as long as the other
          have hlength : lead.length = lead'.length :=
            Nat.le_antisymm (hothers' lead ha.used hlead) (hothers lead' hb.used hlead')
          obtain rfl := eq_of_leads hlead hlead' hlength
          rw [ha.unique hb]
      | none _ hnone => exact absurd hlead (hnone lead ha.used)
  | none hunused hnone =>
      cases hb with
      | exact hb => exact absurd hb.used hunused
      | @longest lead _ _ hb hlead _ => exact absurd hlead (hnone lead hb.used)
      | none => rfl

/-- **A lookup finds the choice.** -/
theorem chooses_iff {rs : List Registration} {name : String} {choice : Option Resolver} :
    Chooses rs name choice ↔ choice = (afterRegistrations rs).lookup name := by
  constructor
  · intro h
    exact h.unique (chooses_lookup rs name)
  · rintro rfl
    exact chooses_lookup rs name

/-! ## The order of registration -/

/-- Where no slot is used twice every registration is the last for its slot. -/
theorem isLast_iff_mem {rs : List Registration} (h : (rs.map Registration.slot).Nodup)
    {slot : Slot} {resolver : Resolver} :
    IsLast rs slot resolver ↔ ⟨slot, resolver⟩ ∈ rs := by
  constructor
  · exact IsLast.mem
  · intro hmem
    obtain ⟨before, after, rfl⟩ := List.append_of_mem hmem
    refine ⟨before, after, rfl, ?_⟩
    intro r hr hslot
    rw [List.map_append, List.map_cons, List.nodup_append] at h
    exact (List.nodup_cons.mp h.2.1).1 (List.mem_map.mpr ⟨r, hr, hslot⟩)

/-- **The order does not show** where no slot is used twice. -/
theorem Chooses.perm {rs rs' : List Registration} {name : String} {choice : Option Resolver}
    (h : Chooses rs name choice) (hperm : rs.Perm rs')
    (hnodup : (rs.map Registration.slot).Nodup) : Chooses rs' name choice := by
  have hslots := hperm.map Registration.slot
  have hlast : ∀ {slot : Slot} {resolver : Resolver}, IsLast rs slot resolver →
      IsLast rs' slot resolver := by
    intro slot resolver h
    rw [isLast_iff_mem (hslots.nodup_iff.mp hnodup), ← hperm.mem_iff]
    exact h.mem
  cases h with
  | exact h => exact .exact (hlast h)
  | longest hunused h hlead hothers =>
      refine .longest (mt hslots.mem_iff.mpr hunused) (hlast h) hlead ?_
      intro other hused
      exact hothers other (hslots.mem_iff.mpr hused)
  | none hunused hnone =>
      refine .none (mt hslots.mem_iff.mpr hunused) ?_
      intro lead hused
      exact hnone lead (hslots.mem_iff.mpr hused)

/-- **Resolution after any registrations.**  Exactly one choice is open to a name.
    If a resolver is chosen and gives a value, that is the value of the name;
    otherwise it is the value in the context, or the empty text.  Registrations
    for different slots resolve every name alike in any order. -/
theorem resolve_afterRegistrations (rs : List Registration) :
    (∀ name, ∃ choice, (∀ other, Chooses rs name other ↔ other = choice) ∧
      ∀ context, (afterRegistrations rs).resolve name context =
        match choice.bind fun resolver => resolver name context with
        | some value => value
        | none => (Assoc.get? name context.data).getD (.string "")) ∧
      ∀ rs', rs.Perm rs' → (rs.map Registration.slot).Nodup → ∀ name context,
        (afterRegistrations rs').resolve name context =
          (afterRegistrations rs).resolve name context := by
  constructor
  · intro name
    refine ⟨(afterRegistrations rs).lookup name, fun other => chooses_iff, ?_⟩
    intro context
    rw [resolve]
    cases ((afterRegistrations rs).lookup name).bind fun resolver => resolver name context with
    | none => rfl
    | some value => rfl
  · intro rs' hperm hnodup name context
    have hchoice := chooses_iff.mp ((chooses_lookup rs name).perm hperm hnodup)
    rw [resolve, resolve, ← hchoice]

/-- Of two starts that a name has the longer one counts, whichever was registered
    first. -/
theorem resolve_afterRegistrations_starts :
    let gives := fun text : String => (fun _ _ => some (.string text) : Resolver)
    let rs : List Registration :=
      [⟨.lead "ab", gives "long"⟩, ⟨.lead "", gives "any"⟩, ⟨.name "abc", gives "name"⟩]
    rs.Perm rs.reverse ∧ (rs.map Registration.slot).Nodup ∧
      ∀ context, (afterRegistrations rs.reverse).resolve "abd" context = .string "long" := by
  intro gives rs
  have hperm : rs.Perm rs.reverse := (List.reverse_perm rs).symm
  have hnodup : (rs.map Registration.slot).Nodup := by decide
  refine ⟨hperm, hnodup, ?_⟩
  intro context
  rw [(resolve_afterRegistrations rs).2 rs.reverse hperm hnodup]
  rfl

end PageLoom.FieldRegistry
