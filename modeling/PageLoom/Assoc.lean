/-!
# Sorted association lists — maps whose order is their keys' order

    Objects, stores and tables of fields are kept as lists of pairs in
    ascending order of keys, each key once.  `insert` puts a pair in its
    place and replaces the value of a key that is already there, so two
    lists built from the same pairs under distinct keys are equal whatever
    the order of insertion.
-/

namespace PageLoom.Assoc

variable {κ ν : Type} [LT κ] [DecidableLT κ] [DecidableEq κ]

/-- The value of a key. -/
def get? (key : κ) : List (κ × ν) → Option ν
  | [] => none
  | (k, v) :: rest => if key = k then some v else get? key rest

/-- **Insertion**: the pair in its place, replacing the value of the key. -/
def insert (key : κ) (value : ν) : List (κ × ν) → List (κ × ν)
  | [] => [(key, value)]
  | (k, v) :: rest =>
      if key = k then (key, value) :: rest
      else if key < k then (key, value) :: (k, v) :: rest
      else (k, v) :: insert key value rest

/-- The list without a key. -/
def erase (key : κ) (entries : List (κ × ν)) : List (κ × ν) :=
  entries.filter fun (k, _) => decide (k ≠ key)

/-- The pairs in order of keys; of several values of one key the last stays. -/
def ofList (pairs : List (κ × ν)) : List (κ × ν) :=
  pairs.foldl (fun entries (key, value) => insert key value entries) []

/-- The values in order of keys. -/
def values (entries : List (κ × ν)) : List ν :=
  entries.map (·.2)

omit [LT κ] [DecidableLT κ] in
@[simp] theorem get?_nil (key : κ) : get? key ([] : List (κ × ν)) = none := rfl

/-- The inserted key has the inserted value; other keys keep theirs. -/
theorem get?_insert (key key' : κ) (value : ν) (entries : List (κ × ν)) :
    get? key' (insert key value entries) = if key' = key then some value else get? key' entries := by
  induction entries with
  | nil => simp [insert, get?]
  | cons entry rest ih =>
      obtain ⟨k, v⟩ := entry
      by_cases h : key = k
      · subst h
        by_cases h' : key' = key <;> simp [insert, get?, h']
      · by_cases hlt : key < k
        · simp [insert, get?, h, hlt]
        · by_cases h' : key' = k
          · subst h'
            simp [insert, get?, h, hlt, Ne.symm h]
          · simp [insert, get?, h, hlt, h', ih]

omit [LT κ] [DecidableLT κ] in
/-- An erased key has no value; other keys keep theirs. -/
theorem get?_erase (key key' : κ) (entries : List (κ × ν)) :
    get? key' (erase key entries) = if key' = key then none else get? key' entries := by
  induction entries with
  | nil => simp [erase, get?]
  | cons entry rest ih =>
      obtain ⟨k, v⟩ := entry
      simp only [erase] at ih ⊢
      by_cases h : k = key
      · subst h
        by_cases h' : key' = k <;> simp_all [get?]
      · by_cases h' : key' = k
        · subst h'
          simp [get?, h]
        · simp only [ne_eq, h, not_false_eq_true, decide_true, List.filter_cons_of_pos, get?, h',
            if_false, ih]

end PageLoom.Assoc
