import PageLoom.Document.Node

/-!
# Fields — what a JSON value gives for a structure

    A structure is read from an object, which gives a field under its name,
    or from an array, which gives it at its place (`Json.field?`).  A record
    hands out exactly what is given there (`Record.get_ofJson`).  The readers
    of single values take one kind of JSON value each.
-/

namespace PageLoom

/-- **The field that a value gives** for a structure with the names `names`. -/
def Json.field? (names : List String) (name : String) : Json → Option Json
  | .object members => Assoc.get? name members
  | .array items => (names.zip items).lookup name
  | _ => none

namespace Node

theorem ofItems_eq_map (items : List Json) : ofItems items = items.map ofJson := by
  induction items with
  | nil => rfl
  | cons item items ih => exact congrArg (ofJson item :: ·) ih

theorem ofMembers_eq_map (members : List (String × Json)) :
    ofMembers members = members.map fun (key, value) => (key, ofJson value) := by
  induction members with
  | nil => rfl
  | cons member members ih => exact congrArg ((member.1, ofJson member.2) :: ·) ih

theorem filter_ofMembers (keep : String → Bool) (members : List (String × Json)) :
    (ofMembers members).filter (fun entry => keep entry.1) =
      ofMembers (members.filter fun member => keep member.1) := by
  rw [ofMembers_eq_map, ofMembers_eq_map, List.filter_map]
  rfl

/-- Only a string reads as a text. -/
theorem text?_ofJson_eq_some {value : Json} {s : String} :
    (ofJson value).text? = some s ↔ value = .string s := by
  constructor
  · intro h
    cases value with
    | string t => exact congrArg Json.string (Option.some.inj h)
    | _ => cases h
  · rintro rfl
    rfl

/-- What reads as a list is an array, read item by item. -/
theorem list?_ofJson {α : Type} {read : Node → Option α} {value : Json} {list : List α}
    (h : (ofJson value).list? read = some list) :
    ∃ items, value = .array items ∧ items.mapM (fun item => read (ofJson item)) = some list := by
  cases value with
  | array items =>
      refine ⟨items, rfl, ?_⟩
      rw [ofJson, list?, ofItems_eq_map, List.mapM_map] at h
      exact h
  | _ => cases h

end Node

namespace Record

/-! ## Records -/

/-- Looking up a name of an object. -/
theorem lookup_ofMembers (members : List (String × Json)) (name : String) :
    (Node.ofMembers members).lookup name = (Assoc.get? name members).map Node.ofJson := by
  induction members with
  | nil => rfl
  | cons member members ih =>
      obtain ⟨key, value⟩ := member
      rw [Node.ofMembers, List.lookup_cons, Assoc.get?, ih]
      by_cases hkey : name = key
      · rw [if_pos hkey, beq_iff_eq.mpr hkey]
        rfl
      · rw [if_neg hkey, beq_eq_false_iff_ne.mpr hkey]

/-- Leaving out entries of other names loses nothing under a name. -/
theorem lookup_filter {name : String} {keep : String × Node → Bool}
    (h : ∀ node, keep (name, node) = true) (entries : List (String × Node)) :
    (entries.filter keep).lookup name = entries.lookup name := by
  induction entries with
  | nil => rfl
  | cons entry entries ih =>
      obtain ⟨key, node⟩ := entry
      by_cases hkey : name = key
      · subst hkey
        rw [List.filter_cons_of_pos (h node), List.lookup_cons_self, List.lookup_cons_self]
      · rw [List.lookup_cons, beq_eq_false_iff_ne.mpr hkey, ← ih]
        cases hkeep : keep (key, node) with
        | true =>
            rw [List.filter_cons_of_pos hkeep, List.lookup_cons, beq_eq_false_iff_ne.mpr hkey]
        | false => rw [List.filter_cons_of_neg (by rw [hkeep]; exact Bool.false_ne_true)]

/-- Looking up a name of an array whose items stand for fields in order. -/
theorem lookup_zip (names : List String) (items : List Json) (name : String) :
    (names.zip (items.map Node.ofJson)).lookup name =
      ((names.zip items).lookup name).map Node.ofJson := by
  induction names generalizing items with
  | nil => rfl
  | cons first names ih =>
      cases items with
      | nil => rfl
      | cons item items =>
          rw [List.map_cons, List.zip_cons_cons, List.zip_cons_cons, List.lookup_cons,
            List.lookup_cons, ih]
          cases name == first with
          | true => rfl
          | false => rfl

/-- A record is read from an object or an array, and has the fields that it
    gives. -/
theorem ofNode?_ofJson {names : List String} {value : Json} {record : Record}
    (h : ofNode? names (Node.ofJson value) = some record) :
    ((∃ members, value = .object members) ∨ ∃ items, value = .array items) ∧
      ∀ name ∈ names,
        record.fields.lookup name = (value.field? names name).map Node.ofJson := by
  cases value with
  | object members =>
      refine ⟨Or.inl ⟨members, rfl⟩, ?_⟩
      intro name hname
      obtain ⟨-, hrecord⟩ := Option.ite_none_right_eq_some.mp (show select names _ = _ from h)
      obtain rfl := Option.some.inj hrecord
      have hkept : names.contains name = true := List.contains_iff_mem.mpr hname
      rw [Json.field?, ← lookup_ofMembers]
      exact lookup_filter (fun _ => hkept) _
  | array items =>
      refine ⟨Or.inr ⟨items, rfl⟩, ?_⟩
      intro name _
      rw [Node.ofJson, Node.ofItems_eq_map] at h
      obtain ⟨-, hrecord⟩ := Option.ite_none_right_eq_some.mp h
      obtain rfl := Option.some.inj hrecord
      rw [Json.field?, ← lookup_zip]
  | _ => cases h

/-- **A record hands out the fields that the value gives**, and defaults for
    the others. -/
theorem get_ofJson {α : Type} {names : List String} {value : Json} {record : Record}
    (h : ofNode? names (Node.ofJson value) = some record) {name : String} (hname : name ∈ names)
    {read : Node → Option α} {default a : α} (hget : record.get name read default = some a) :
    (value.field? names name = none ∧ a = default) ∨
      ∃ field, value.field? names name = some field ∧ read (Node.ofJson field) = some a := by
  rw [get, (ofNode?_ofJson h).2 name hname] at hget
  cases hfield : value.field? names name with
  | none =>
      rw [hfield] at hget
      exact Or.inl ⟨rfl, (Option.some.inj hget).symm⟩
  | some field =>
      rw [hfield] at hget
      exact Or.inr ⟨field, rfl, hget⟩

end Record

end PageLoom
