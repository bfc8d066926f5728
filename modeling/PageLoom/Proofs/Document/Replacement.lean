import Mathlib.Data.List.Nodup
import PageLoom.Document.Node

/-!
# Replacement — a document with another value in one field

    A document gives a field under its name or at its place, and
    `Node.withField` puts another value there.  The record that is read has the
    new value in the field if it had the field at all, and keeps all others
    (`Record.ofNode?_withField`).
-/

namespace PageLoom

/-- The entries with another value under a name. -/
def replaceEntry (name : String) (value : Node) (entries : List (String × Node)) :
    List (String × Node) :=
  entries.map fun (key, node) => (key, if key = name then value else node)

/-- **The document with another value in a field** of a structure with the names
    `names`. -/
def Node.withField (names : List String) (name : String) (document value : Node) : Node :=
  match document with
  | .map entries => .map (replaceEntry name value entries)
  | .array items => .array (items.set (names.idxOf name) value)
  | node => node

/-- The record with another value in a field. -/
def Record.withField (name : String) (value : Node) (record : Record) : Record :=
  ⟨replaceEntry name value record.fields⟩

/-! ## Entries -/

theorem replaceEntry_of_not_mem {name : String} {entries : List (String × Node)}
    (h : name ∉ entries.map Prod.fst) (value : Node) :
    replaceEntry name value entries = entries := by
  induction entries with
  | nil => rfl
  | cons entry rest ih =>
      obtain ⟨key, node⟩ := entry
      obtain ⟨hkey, hrest⟩ := not_or.mp (h ∘ List.mem_cons.mpr)
      show (key, if key = name then value else node) :: replaceEntry name value rest = _
      rw [if_neg (Ne.symm hkey), ih hrest]

theorem lookup_replaceEntry_of_ne {name other : String} (h : other ≠ name) (value : Node)
    (entries : List (String × Node)) :
    (replaceEntry name value entries).lookup other = entries.lookup other := by
  induction entries with
  | nil => rfl
  | cons entry rest ih =>
      obtain ⟨key, node⟩ := entry
      show List.lookup other ((key, if key = name then value else node) ::
        replaceEntry name value rest) = _
      rw [List.lookup_cons, List.lookup_cons, ih]
      cases hkey : other == key with
      | false => rfl
      | true =>
          rw [← beq_iff_eq.mp hkey, if_neg h]

theorem lookup_replaceEntry_self (name : String) (value : Node) (entries : List (String × Node)) :
    (replaceEntry name value entries).lookup name =
      (entries.lookup name).map fun _ => value := by
  induction entries with
  | nil => rfl
  | cons entry rest ih =>
      obtain ⟨key, node⟩ := entry
      show List.lookup name ((key, if key = name then value else node) ::
        replaceEntry name value rest) = _
      rw [List.lookup_cons, List.lookup_cons, ih]
      cases hkey : name == key with
      | false => rfl
      | true =>
          rw [← beq_iff_eq.mp hkey, if_pos rfl]
          rfl

/-- Replacing an entry and selecting the fields commute. -/
theorem select_replaceEntry (names : List String) (name : String) (value : Node)
    (entries : List (String × Node)) :
    Record.select names (replaceEntry name value entries) =
      (Record.select names entries).map (Record.withField name value) := by
  have hknown : (replaceEntry name value entries).filter (fun (key, _) => names.contains key) =
      replaceEntry name value (entries.filter fun (key, _) => names.contains key) := by
    rw [replaceEntry, List.filter_map]
    rfl
  have hkeys : ∀ known : List (String × Node),
      (replaceEntry name value known).map (·.1) = known.map (·.1) := by
    intro known
    rw [replaceEntry, List.map_map]
    rfl
  simp only [Record.select, hknown, hkeys]
  split
  · rfl
  · rfl

/-- In an array the entry is replaced at the position of its name. -/
theorem zip_set_idxOf {names : List String} (distinct : names.Nodup) (name : String) (value : Node)
    (items : List Node) :
    names.zip (items.set (names.idxOf name) value) = replaceEntry name value (names.zip items) := by
  induction names generalizing items with
  | nil => rfl
  | cons first names ih =>
      obtain ⟨hfirst, hrest⟩ := List.nodup_cons.mp distinct
      cases items with
      | nil => rfl
      | cons item items =>
          show _ = (first, if first = name then value else item) ::
            replaceEntry name value (names.zip items)
          by_cases hname : first = name
          · -- the place is found, and no later name is the same
            subst hname
            have hlater : first ∉ (names.zip items).map Prod.fst := by
              intro hmem
              obtain ⟨⟨key, node⟩, hentry, rfl⟩ := List.mem_map.mp hmem
              exact hfirst (List.of_mem_zip hentry).1
            rw [List.idxOf_cons_self, List.set_cons_zero, List.zip_cons_cons, if_pos rfl,
              replaceEntry_of_not_mem hlater]
          · rw [List.idxOf_cons_ne _ hname, List.set_cons_succ, List.zip_cons_cons, ih hrest,
              if_neg hname]

namespace Record

variable {names : List String} {name : String}

/-- **The record of the document** with another value is the record with another
    value. -/
theorem ofNode?_withField (distinct : names.Nodup) (name : String) (value document : Node) :
    ofNode? names (document.withField names name value) =
      (ofNode? names document).map (withField name value) := by
  cases document with
  | map entries => exact select_replaceEntry names name value entries
  | array items =>
      simp only [Node.withField, ofNode?, List.length_set]
      split
      · rw [Option.map_some, withField, zip_set_idxOf distinct]
      · rfl
  | plain spelling =>
      simp only [Node.withField, ofNode?, Node.entries?]
      split
      · rfl
      · rfl
  | _ => rfl

/-- What does not tell two values of a field apart reads the two documents
    alike. -/
theorem ofNode?_bind_congr {α : Type} {read : Record → Option α} {a b : Node}
    (distinct : names.Nodup)
    (h : ∀ record : Record, read (record.withField name a) = read (record.withField name b))
    (document : Node) :
    (ofNode? names (document.withField names name a)).bind read =
      (ofNode? names (document.withField names name b)).bind read := by
  rw [ofNode?_withField distinct, ofNode?_withField distinct]
  cases ofNode? names document with
  | none => rfl
  | some record => exact h record

variable {α β : Type} {read : Node → Option α} {default : α} {a b : Node} {f g : α → Option β}

/-- The replaced field is handed out alike if both values read alike. -/
theorem bind_withField_self (record : Record) (h : read a = read b) (hrest : ∀ x, f x = g x) :
    ((record.withField name a).get name read default).bind f =
      ((record.withField name b).get name read default).bind g := by
  have hget : (record.withField name a).get name read default =
      (record.withField name b).get name read default := by
    rw [get, get, withField, withField, lookup_replaceEntry_self, lookup_replaceEntry_self]
    cases record.fields.lookup name with
    | none => rfl
    | some node => exact h
  rw [hget, funext hrest]

/-- Other fields do not see the values. -/
theorem bind_withField_of_ne {other : String} (record : Record) (h : other ≠ name)
    (hrest : ∀ x, f x = g x) :
    ((record.withField name a).get other read default).bind f =
      ((record.withField name b).get other read default).bind g := by
  rw [get, get, withField, withField, lookup_replaceEntry_of_ne h, lookup_replaceEntry_of_ne h,
    funext hrest]

end Record

end PageLoom
