import PageLoom.Proofs.Document.Fields
import PageLoom.Proofs.Json.Ordered

/-!
# Settled readers — what is read, stored and read again

    A reader takes many spellings of a value, but a value is stored in one form.
    The two fit together if the stored form of whatever is read reads as the
    same (`Node.Settles`).  They do for readers of single values; for a list they
    do if they do for its items (`Node.settles_list`), and for a record field by
    field (`Record.Stores.bind`).
-/

namespace PageLoom

namespace PlainScalar

/-! ## Bounds of plain integers -/

/-- What is read up to a bound is within it. -/
theorem le_of_upTo {bound n : Nat} {value : Option Nat} (h : upTo bound value = some n) :
    n ≤ bound := by
  cases value with
  | none => cases h
  | some m =>
      obtain ⟨hle, hm⟩ := Option.ite_none_right_eq_some.mp h
      exact Option.some.inj hm ▸ hle

theorem le_of_marked? {bound n : Nat} {cs : List Char} (h : marked? bound cs = some n) :
    n ≤ bound := by
  rw [marked?.eq_def] at h
  split at h
  case h_4 => cases h
  all_goals exact le_of_upTo h

theorem le_of_unsigned? {bound n : Nat} {cs : List Char} (h : unsigned? bound cs = some n) :
    n ≤ bound := by
  simp only [unsigned?] at h
  split at h
  case h_1 hmarked => exact Option.some.inj h ▸ le_of_marked? hmarked
  case h_2 => exact le_of_upTo (Option.ite_none_left_eq_some.mp h).2

theorem nonpos_of_negative? {bound : Nat} {cs : List Char} {n : Int}
    (h : negative? bound cs = some n) : n ≤ 0 := by
  rw [negative?.eq_def] at h
  split at h
  case h_2 => cases h
  case h_1 body =>
      split at h
      case h_1 m _ =>
          obtain rfl := Option.some.inj h
          exact Int.neg_nonpos_of_nonneg (Int.natCast_nonneg m)
      case h_2 =>
          obtain ⟨k, hk, rfl⟩ := Option.map_eq_some_iff.mp (Option.ite_none_left_eq_some.mp h).2
          obtain ⟨m, -, hm⟩ := Option.bind_eq_some_iff.mp hk
          obtain rfl := Option.some.inj hm
          exact Int.neg_nonpos_of_nonneg (Int.natCast_nonneg m)

/-- A whole number that was read is no greater than the greatest signed one. -/
theorem le_greatestSigned {s : String} {n : Int} (h : integer? s = some n) :
    n ≤ Number.greatestSigned := by
  rw [integer?] at h
  split at h
  case h_1 m hm =>
      have hle : m ≤ 2 ^ 63 - 1 := le_of_unsigned? hm
      obtain rfl := Option.some.inj h
      rw [Number.greatestSigned]
      omega
  case h_2 => exact (nonpos_of_negative? h).trans (by decide)

end PlainScalar

namespace Node

variable {α : Type} {read : Node → Option α} {store : α → Json}

/-- **A reader takes back what it gives**: the stored form of whatever it reads,
    from whatever spelling, reads as the same. -/
def Settles (read : Node → Option α) (store : α → Json) : Prop :=
  ∀ ⦃node : Node⦄ ⦃a : α⦄, read node = some a → read (ofJson (store a)) = some a

/-! ## Single values -/

theorem settles_text : Settles text? .string := fun _ _ _ => rfl

theorem settles_bool : Settles bool? .bool := fun _ _ _ => rfl

theorem settles_natural : Settles natural? .ofNat := by
  intro node n _
  show (if 0 ≤ (n : Int) then some (n : Int).toNat else none) = some n
  exact if_pos (Int.natCast_nonneg n)

theorem settles_integer : Settles integer? fun n => .number (.int n) := by
  intro node n h
  refine if_pos ?_
  cases node with
  | number m =>
      cases m with
      | int k =>
          obtain ⟨hle, hk⟩ := Option.ite_none_right_eq_some.mp h
          exact Option.some.inj hk ▸ hle
      | real x => cases h
  | plain spelling => exact PlainScalar.le_greatestSigned h
  | _ => cases h

/-- A word of a choice: what a word without meaning falls back to has a word of
    its own. -/
theorem settles_name {ofName : String → α} {name : α → String}
    (h : ∀ word, ofName (name (ofName word)) = ofName word) :
    Settles (fun node => node.text?.map ofName) fun a => .string (name a) := by
  intro node a hread
  obtain ⟨word, -, rfl⟩ := Option.map_eq_some_iff.mp hread
  exact congrArg some (h word)

/-- Any value, made sense of. -/
theorem settles_json {ofValue : Json → α} (ordered : ∀ a, (store a).Ordered)
    (h : ∀ value, ofValue (store (ofValue value)) = ofValue value) :
    Settles (fun node => node.json?.map ofValue) store := by
  intro node a hread
  obtain ⟨value, -, rfl⟩ := Option.map_eq_some_iff.mp hread
  show (ofJson (store (ofValue value))).json?.map ofValue = _
  rw [json?_ofJson (ordered _), Option.map_some, h]

/-! ## Lists -/

/-- Each item of a list that was read comes from a node of it. -/
theorem exists_of_mapM {nodes : List Node} {items : List α} (h : nodes.mapM read = some items) :
    ∀ item ∈ items, ∃ node, read node = some item := by
  induction nodes generalizing items with
  | nil =>
      obtain rfl := Option.some.inj h
      exact List.forall_mem_nil _
  | cons node nodes ih =>
      rw [List.mapM_cons] at h
      obtain ⟨item, hitem, h⟩ := Option.bind_eq_some_iff.mp h
      obtain ⟨rest, hrest, h⟩ := Option.bind_eq_some_iff.mp h
      obtain rfl := Option.some.inj h
      exact List.forall_mem_cons.mpr ⟨⟨node, hitem⟩, ih hrest⟩

/-- Items that are taken back one by one are taken back as a list. -/
theorem mapM_stored {items : List α} (h : ∀ item ∈ items, read (ofJson (store item)) = some item) :
    (ofItems (items.map store)).mapM read = some items := by
  induction items with
  | nil => rfl
  | cons item items ih =>
      obtain ⟨hitem, hrest⟩ := List.forall_mem_cons.mp h
      rw [List.map_cons, ofItems, List.mapM_cons, hitem, ih hrest]
      rfl

/-- **A list settles** with its items. -/
theorem settles_list (settles : Settles read store) :
    Settles (list? read) fun items => .array (items.map store) := by
  intro node items h
  have hitems : ∀ item ∈ items, ∃ node, read node = some item := by
    cases node with
    | array nodes => exact exists_of_mapM h
    | list nodes => exact exists_of_mapM h
    | plain spelling =>
        obtain ⟨-, hnil⟩ := Option.ite_none_right_eq_some.mp h
        obtain rfl := Option.some.inj hnil
        exact List.forall_mem_nil _
    | _ => cases h
  refine mapM_stored fun item hitem => ?_
  obtain ⟨node, hread⟩ := hitems item hitem
  exact settles hread

end Node

namespace Record

/-! ## Records -/

variable {names : List String} {members : List (String × Json)} {record : Record}

/-- **A record gives what is stored**: each member under its name. -/
def Stores (record : Record) (members : List (String × Json)) : Prop :=
  ∀ ⦃name : String⦄ ⦃value : Json⦄, Assoc.get? name members = some value →
    record.fields.lookup name = some (Node.ofJson value)

/-- The fields with given names of a stored object. -/
theorem select_stored (distinct : (members.map Prod.fst).Nodup) (names : List String) :
    ∃ record, select names (Node.ofMembers (Assoc.ofList members)) = some record ∧
      ∀ name ∈ names, ∀ value, Assoc.get? name members = some value →
        record.fields.lookup name = some (Node.ofJson value) := by
  have hkeys : ((Node.ofMembers (Assoc.ofList members)).map Prod.fst).Nodup := by
    rw [Node.ofMembers_eq_map, List.map_map]
    exact (Assoc.Sorted.ofList members).nodup
  -- the keys ascend, so no field is given twice
  refine ⟨_, if_pos (hkeys.sublist (List.filter_sublist.map Prod.fst)), ?_⟩
  intro name hname value hvalue
  have hkept : names.contains name = true := List.contains_iff_mem.mpr hname
  rw [← Assoc.get?_ofList distinct] at hvalue
  rw [lookup_filter (fun _ => hkept), lookup_ofMembers, hvalue]
  rfl

/-- **A stored object is read** as a record that gives all its members. -/
theorem ofNode?_stored (names : List String) (value : Json) (hvalue : value = .ofMembers members)
    (hnames : members.map Prod.fst = names) (distinct : names.Nodup) :
    ∃ record, ofNode? names (Node.ofJson value) = some record ∧ record.Stores members := by
  subst hvalue hnames
  obtain ⟨record, hrecord, hlookup⟩ := select_stored distinct (members.map Prod.fst)
  exact ⟨record, hrecord, fun name member hmember =>
    hlookup name (Assoc.mem_keys_of_get? hmember) member hmember⟩

variable {α β : Type} {read : Node → Option α} {store : α → Json} {a default : α} {other : Record}
  {name : String}

/-- **A field settles** if its reader and its default do: what one document gave
    is given by the stored record too. -/
theorem Stores.get (stores : record.Stores members) (hget : other.get name read default = some a)
    (hmember : Assoc.get? name members = some (store a)) (settles : Node.Settles read store)
    (hdefault : read (.ofJson (store default)) = some default) :
    record.get name read default = some a := by
  have hread : read (.ofJson (store a)) = some a := by
    rw [Record.get] at hget
    split at hget
    · exact settles hget
    · exact Option.some.inj hget ▸ hdefault
  rw [Record.get, stores hmember]
  exact hread

/-- A stored record is read field by field, on to the rest of the fields. -/
theorem Stores.bind {rest : α → Option β} {result : β} (stores : record.Stores members)
    (hget : other.get name read default = some a)
    (hmember : Assoc.get? name members = some (store a)) (settles : Node.Settles read store)
    (hdefault : read (.ofJson (store default)) = some default) (hrest : rest a = some result) :
    (record.get name read default).bind rest = some result :=
  Option.bind_eq_some_iff.mpr ⟨a, stores.get hget hmember settles hdefault, hrest⟩

end Record

end PageLoom
