import Mathlib.Order.Lattice
import PageLoom.Assoc

/-!
# Sorted keys — the order of insertion does not show

    `insert` and `erase` keep the keys ascending (`Sorted.insert`,
    `Sorted.erase`).  Under ascending keys no key is there twice, so a pair is
    among the entries exactly when its key has its value (`Sorted.mem_iff`).
    Two insertions under different keys may change places (`insert_comm`).
    Values that are kept under keys of their own (`Own`) are the ones found
    there (`Sorted.mem_values_iff`), and a search by any mark finds the one
    with the least key (`Sorted.find?_values_eq_some_iff`).

    Lists with ascending keys are the same when every key has the same value in
    both (`Sorted.ext`).  So a list that is put in order keeps its values if no
    key is there twice (`get?_ofList`), and is unchanged if it is in order
    (`Sorted.ofList_eq`).
-/

namespace PageLoom.Assoc

variable {κ ν : Type} [LinearOrder κ]

/-- **Ascending keys**, so no key twice. -/
def Sorted (entries : List (κ × ν)) : Prop :=
  entries.Pairwise fun a b => a.1 < b.1

instance (entries : List (κ × ν)) : Decidable (Sorted entries) :=
  inferInstanceAs (Decidable (entries.Pairwise fun a b => a.1 < b.1))

theorem Sorted.nil : Sorted ([] : List (κ × ν)) :=
  List.Pairwise.nil

/-- An insertion adds its own entry only. -/
theorem mem_of_mem_insert {key : κ} {value : ν} {entries : List (κ × ν)} {entry : κ × ν}
    (h : entry ∈ insert key value entries) : entry = (key, value) ∨ entry ∈ entries := by
  induction entries with
  | nil => exact .inl (List.mem_singleton.mp h)
  | cons head rest ih =>
      obtain ⟨k, v⟩ := head
      simp only [insert] at h
      split at h
      · exact (List.mem_cons.mp h).imp id (List.mem_cons_of_mem _)
      · split at h
        · exact List.mem_cons.mp h
        · rcases List.mem_cons.mp h with rfl | h
          · exact .inr List.mem_cons_self
          · exact (ih h).imp id (List.mem_cons_of_mem _)

/-- An insertion keeps the order. -/
theorem Sorted.insert {entries : List (κ × ν)} (sorted : Sorted entries) (key : κ) (value : ν) :
    Sorted (Assoc.insert key value entries) := by
  induction entries with
  | nil => exact List.pairwise_singleton _ _
  | cons head rest ih =>
      obtain ⟨k, v⟩ := head
      obtain ⟨below, tail⟩ := List.pairwise_cons.mp sorted
      simp only [Assoc.insert]
      split
      case isTrue heq =>
          subst heq
          exact List.pairwise_cons.mpr ⟨below, tail⟩
      case isFalse hne =>
          split
          case isTrue hlt =>
              refine List.pairwise_cons.mpr ⟨?_, sorted⟩
              intro entry hmem
              rcases List.mem_cons.mp hmem with rfl | hmem
              · exact hlt
              · exact lt_trans hlt (below entry hmem)
          case isFalse hge =>
              refine List.pairwise_cons.mpr ⟨?_, ih tail⟩
              intro entry hmem
              rcases mem_of_mem_insert hmem with rfl | hmem
              · exact lt_of_le_of_ne (not_lt.mp hge) (Ne.symm hne)
              · exact below entry hmem

/-- A removal keeps the order. -/
theorem Sorted.erase {entries : List (κ × ν)} (sorted : Sorted entries) (key : κ) :
    Sorted (Assoc.erase key entries) :=
  sorted.sublist List.filter_sublist

/-- **Membership is lookup**: under ascending keys a pair is there exactly when
    its key has its value. -/
theorem Sorted.mem_iff {entries : List (κ × ν)} (sorted : Sorted entries) {key : κ} {value : ν} :
    (key, value) ∈ entries ↔ get? key entries = some value := by
  induction entries with
  | nil => simp
  | cons head rest ih =>
      obtain ⟨k, v⟩ := head
      obtain ⟨below, tail⟩ := List.pairwise_cons.mp sorted
      rw [List.mem_cons, ih tail, Prod.mk.injEq, get?]
      by_cases heq : key = k
      · -- a later pair of this key would be above itself
        have hrest : get? key rest ≠ some value := by
          intro h
          exact absurd (below _ ((ih tail).mpr h)) (by simp [heq])
        simp only [heq, true_and, if_true, Option.some.injEq] at hrest ⊢
        constructor
        · rintro (h | h)
          · exact h.symm
          · exact absurd h hrest
        · intro h
          exact .inl h.symm
      · simp [heq]

/-- **Insertions commute** under different keys. -/
theorem insert_comm {a b : κ} (hne : a ≠ b) (x y : ν) (entries : List (κ × ν)) :
    insert a x (insert b y entries) = insert b y (insert a x entries) := by
  induction entries with
  | nil =>
      rcases lt_or_gt_of_ne hne with h | h <;> simp [insert, hne, hne.symm, h, h.not_gt]
  | cons head rest ih =>
      obtain ⟨k, v⟩ := head
      -- each key is the head's, goes before it or past it; past it, `ih`
      simp only [insert]
      grind [insert]

/-! ## Values under keys of their own -/

/-- **Values under keys of their own**, which `key` gives. -/
def Own (key : ν → κ) (entries : List (κ × ν)) : Prop :=
  ∀ entry ∈ entries, entry.1 = key entry.2

/-- Entries stay under their own keys when a value is put under its key. -/
theorem Own.insert {key : ν → κ} {entries : List (κ × ν)} (own : Own key entries) (value : ν) :
    Own key (Assoc.insert (key value) value entries) := by
  intro entry hmem
  rcases mem_of_mem_insert hmem with rfl | hmem
  · rfl
  · exact own entry hmem

/-- Entries stay under their own keys when one is removed. -/
theorem Own.erase {key : ν → κ} {entries : List (κ × ν)} (own : Own key entries) (k : κ) :
    Own key (Assoc.erase k entries) := by
  intro entry hmem
  exact own entry (List.mem_filter.mp hmem).1

/-- The values are the ones found under their keys. -/
theorem Sorted.mem_values_iff {key : ν → κ} {entries : List (κ × ν)} (sorted : Sorted entries)
    (own : Own key entries) {value : ν} :
    value ∈ values entries ↔ get? (key value) entries = some value := by
  rw [← sorted.mem_iff, values, List.mem_map]
  constructor
  · rintro ⟨entry, hmem, rfl⟩
    rw [← own entry hmem]
    exact hmem
  · intro hmem
    exact ⟨_, hmem, rfl⟩

/-- The values stand in the order of their keys. -/
theorem Sorted.pairwise_values {key : ν → κ} {entries : List (κ × ν)} (sorted : Sorted entries)
    (own : Own key entries) : (values entries).Pairwise fun a b => key a < key b := by
  refine List.pairwise_map.mpr (List.Pairwise.imp_of_mem ?_ sorted)
  intro a b ha hb hlt
  rw [← own a ha, ← own b hb]
  exact hlt

/-- **A search finds the least**: of the values with a mark the one with the
    least key. -/
theorem Sorted.find?_values_eq_some_iff {key : ν → κ} {entries : List (κ × ν)}
    (sorted : Sorted entries) (own : Own key entries) (mark : ν → Bool) {value : ν} :
    (values entries).find? mark = some value ↔
      get? (key value) entries = some value ∧ mark value = true ∧
        ∀ other, get? (key other) entries = some other → mark other = true →
          key value ≤ key other := by
  have ascending := sorted.pairwise_values own
  have hleast : ∀ v, (values entries).find? mark = some v → ∀ other ∈ values entries,
      mark other = true → key v ≤ key other := by
    intro v hfound other hmem hmark
    obtain ⟨-, before, after, hvalues, hbefore⟩ := List.find?_eq_some_iff_append.mp hfound
    rw [hvalues] at hmem ascending
    rcases List.mem_append.mp hmem with h | h
    · -- nothing before it has the mark
      have := hbefore other h
      rw [hmark] at this
      cases this
    · rcases List.mem_cons.mp h with rfl | h
      · exact le_rfl
      · exact le_of_lt
          ((List.pairwise_cons.mp (List.pairwise_append.mp ascending).2.1).1 other h)
  constructor
  · intro hfound
    refine ⟨(sorted.mem_values_iff own).mp (List.mem_of_find?_eq_some hfound),
      List.find?_some hfound, ?_⟩
    intro other hother
    exact hleast value hfound other ((sorted.mem_values_iff own).mpr hother)
  · rintro ⟨hvalue, hmark, hothers⟩
    have hmem := (sorted.mem_values_iff own).mpr hvalue
    cases hfound : (values entries).find? mark with
    | none => exact absurd hmark (List.find?_eq_none.mp hfound value hmem)
    | some v =>
        -- both are least, so they have one key
        have hv := (sorted.mem_values_iff own).mp (List.mem_of_find?_eq_some hfound)
        have heq : key v = key value := le_antisymm (hleast v hfound value hmem hmark)
          (hothers v hv (List.find?_some hfound))
        rw [heq, hvalue] at hv
        exact hv.symm

/-! ## Lists put in order -/

omit [LinearOrder κ] in
theorem get?_eq_none_of_not_mem [DecidableEq κ] {key : κ} {entries : List (κ × ν)}
    (h : key ∉ entries.map Prod.fst) : get? key entries = none := by
  induction entries with
  | nil => rfl
  | cons head rest ih =>
      obtain ⟨k, v⟩ := head
      obtain ⟨hhead, hrest⟩ := not_or.mp (h ∘ List.mem_cons.mpr)
      rw [get?, if_neg hhead]
      exact ih hrest

omit [LinearOrder κ] in
theorem mem_keys_of_get? [DecidableEq κ] {key : κ} {value : ν} {entries : List (κ × ν)}
    (h : get? key entries = some value) : key ∈ entries.map Prod.fst := by
  by_contra hkey
  rw [get?_eq_none_of_not_mem hkey] at h
  cases h

omit [LinearOrder κ] in
/-- The first of two lists is asked first. -/
theorem get?_append [DecidableEq κ] (key : κ) (a b : List (κ × ν)) :
    get? key (a ++ b) = (get? key a).or (get? key b) := by
  induction a with
  | nil => rfl
  | cons head rest ih =>
      obtain ⟨k, v⟩ := head
      rw [List.cons_append, get?, get?, ih]
      split
      · rfl
      · rfl

omit [LinearOrder κ] in
/-- Entries may be left out by their keys. -/
theorem get?_filter [DecidableEq κ] (keep : κ → Bool) (key : κ) (entries : List (κ × ν)) :
    get? key (entries.filter fun entry => keep entry.1) =
      if keep key then get? key entries else none := by
  induction entries with
  | nil => rw [List.filter_nil, get?_nil, ite_self]
  | cons head rest ih =>
      obtain ⟨k, v⟩ := head
      rw [List.filter_cons]
      by_cases hkey : key = k
      · subst hkey
        cases hkeep : keep key with
        | true => simp [get?]
        | false => simp [ih, hkeep]
      · cases hkeep : keep k with
        | true => simp [get?, hkey, ih]
        | false => simp [get?, hkey, ih]

/-- In order, no key comes twice. -/
theorem Sorted.nodup {entries : List (κ × ν)} (sorted : Sorted entries) :
    (entries.map Prod.fst).Nodup :=
  List.pairwise_map.mpr (sorted.imp fun hlt => ne_of_lt hlt)

/-- **Ascending keys leave no choice**: the values under the keys are all that a
    list holds. -/
theorem Sorted.ext {a b : List (κ × ν)} (ha : Sorted a) (hb : Sorted b)
    (h : ∀ key, get? key a = get? key b) : a = b := by
  have perm : a.Perm b := by
    have once : ∀ {entries : List (κ × ν)}, Sorted entries → entries.Nodup := fun sorted =>
      sorted.imp fun hlt => ne_of_apply_ne Prod.fst (ne_of_lt hlt)
    refine (List.perm_ext_iff_of_nodup (once ha) (once hb)).mpr ?_
    rintro ⟨key, value⟩
    rw [ha.mem_iff, hb.mem_iff, h]
  refine perm.eq_of_pairwise ?_ ha hb
  intro x y _ _ hxy hyx
  exact absurd hyx (lt_asymm hxy)

/-- A list that was put in order is in order. -/
theorem Sorted.ofList (pairs : List (κ × ν)) : Sorted (Assoc.ofList pairs) := by
  have hfold : ∀ entries : List (κ × ν), Sorted entries →
      Sorted (pairs.foldl (fun entries pair => Assoc.insert pair.1 pair.2 entries) entries) := by
    induction pairs with
    | nil => exact fun _ sorted => sorted
    | cons pair rest ih => exact fun entries sorted => ih _ (sorted.insert pair.1 pair.2)
  exact hfold [] .nil

theorem mem_of_mem_ofList {pairs : List (κ × ν)} {pair : κ × ν} (h : pair ∈ ofList pairs) :
    pair ∈ pairs := by
  have hfold : ∀ entries : List (κ × ν),
      pair ∈ pairs.foldl (fun entries pair => insert pair.1 pair.2 entries) entries →
      pair ∈ entries ∨ pair ∈ pairs := by
    clear h
    induction pairs with
    | nil => exact fun _ h => .inl h
    | cons head rest ih =>
        intro entries h
        rcases ih _ h with h | h
        · rcases mem_of_mem_insert h with rfl | h
          · exact .inr List.mem_cons_self
          · exact .inl h
        · exact .inr (List.mem_cons_of_mem _ h)
  exact (hfold [] h).resolve_left List.not_mem_nil

/-- **A list put in order keeps its values**, if no key is there twice. -/
theorem get?_ofList {pairs : List (κ × ν)} (distinct : (pairs.map Prod.fst).Nodup) (key : κ) :
    get? key (ofList pairs) = get? key pairs := by
  have hfold : ∀ entries : List (κ × ν),
      get? key (pairs.foldl (fun entries pair => insert pair.1 pair.2 entries) entries) =
        (get? key pairs).or (get? key entries) := by
    induction pairs with
    | nil => exact fun _ => rfl
    | cons head rest ih =>
        intro entries
        obtain ⟨k, v⟩ := head
        obtain ⟨hnew, hrest⟩ := List.nodup_cons.mp distinct
        rw [List.foldl_cons, ih hrest, get?_insert, get?]
        by_cases hkey : key = k
        · subst hkey
          rw [if_pos rfl, if_pos rfl, get?_eq_none_of_not_mem hnew]
          rfl
        · rw [if_neg hkey, if_neg hkey]
  exact (hfold []).trans (Option.or_none)

omit [LinearOrder κ] in
/-- What is there under a key of its own is found. -/
theorem get?_of_mem [DecidableEq κ] {key : κ} {value : ν} {pairs : List (κ × ν)}
    (distinct : (pairs.map Prod.fst).Nodup) (h : (key, value) ∈ pairs) :
    get? key pairs = some value := by
  induction pairs with
  | nil => cases h
  | cons head rest ih =>
      obtain ⟨k, v⟩ := head
      obtain ⟨hnew, hrest⟩ := List.nodup_cons.mp distinct
      rw [get?]
      rcases List.mem_cons.mp h with heq | hmem
      · obtain ⟨rfl, rfl⟩ := Prod.mk.inj heq
        exact if_pos rfl
      · have hne : key ≠ k := by
          rintro rfl
          exact hnew (List.mem_map.mpr ⟨_, hmem, rfl⟩)
        rw [if_neg hne]
        exact ih hrest hmem

/-- **A list put in order holds the same pairs**, if no key is there twice. -/
theorem mem_ofList_iff {pairs : List (κ × ν)} (distinct : (pairs.map Prod.fst).Nodup)
    {pair : κ × ν} : pair ∈ ofList pairs ↔ pair ∈ pairs := by
  refine ⟨mem_of_mem_ofList, fun h => ?_⟩
  obtain ⟨key, value⟩ := pair
  rw [(Sorted.ofList pairs).mem_iff, get?_ofList distinct]
  exact get?_of_mem distinct h

/-- A list in order is unchanged. -/
theorem Sorted.ofList_eq {entries : List (κ × ν)} (sorted : Sorted entries) :
    Assoc.ofList entries = entries :=
  (Sorted.ofList entries).ext sorted (get?_ofList sorted.nodup)

end PageLoom.Assoc
