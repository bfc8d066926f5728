import Mathlib.Data.String.Basic
import PageLoom.Document.Node
import PageLoom.Proofs.Assoc

/-!
# Ordered values — objects whose keys ascend

    The value of a document has its members in ascending order of keys, at
    every depth (`Node.ordered_of_json?`), however the document has them.  A
    value that is so ordered is the value of its own document
    (`Node.json?_ofJson`).
-/

namespace PageLoom

/-- **Keys ascend** in every object of a value. -/
inductive Json.Ordered : Json → Prop
  | null : Ordered .null
  | bool (b : Bool) : Ordered (.bool b)
  | number (n : Number) : Ordered (.number n)
  | string (s : String) : Ordered (.string s)
  | array {items : List Json} : (∀ item ∈ items, Ordered item) → Ordered (.array items)
  | object {members : List (String × Json)} :
      Assoc.Sorted members → (∀ member ∈ members, Ordered member.2) → Ordered (.object members)

/-- An object made from ordered values is ordered, for its members are put in
    order. -/
theorem Json.ordered_ofMembers {members : List (String × Json)}
    (h : ∀ member ∈ members, member.2.Ordered) : (Json.ofMembers members).Ordered :=
  .object (Assoc.Sorted.ofList members) fun member hmember =>
    h member (Assoc.mem_of_mem_ofList hmember)

namespace Node

/-- A plain scalar never stands for a list or a mapping. -/
theorem ordered_of_resolve {spelling : String} {value : Json}
    (h : PlainScalar.resolve spelling = some value) : value.Ordered := by
  simp only [PlainScalar.resolve] at h
  repeat' split at h
  all_goals cases h
  all_goals constructor

mutual
/-- **The value of a document is ordered.** -/
theorem ordered_of_json? : ∀ (node : Node) {value : Json},
    node.json? = some value → value.Ordered
  | .null, _, h => by
      cases h
      exact .null
  | .bool b, _, h => by
      cases h
      exact .bool b
  | .number n, _, h => by
      cases h
      exact .number n
  | .string s, _, h => by
      cases h
      exact .string s
  | .plain _, _, h => ordered_of_resolve h
  | .array items, _, h => by
      obtain ⟨values, hvalues, rfl⟩ := Option.map_eq_some_iff.mp h
      exact .array (ordered_of_jsonItems? items hvalues)
  | .list items, _, h => by
      obtain ⟨values, hvalues, rfl⟩ := Option.map_eq_some_iff.mp h
      exact .array (ordered_of_jsonItems? items hvalues)
  | .map entries, _, h => by
      obtain ⟨members, hmembers, rfl⟩ := Option.map_eq_some_iff.mp h
      exact Json.ordered_ofMembers (ordered_of_jsonMembers? entries hmembers)

theorem ordered_of_jsonItems? : ∀ (items : List Node) {values : List Json},
    jsonItems? items = some values → ∀ value ∈ values, value.Ordered
  | [], _, h => by
      cases h
      exact List.forall_mem_nil _
  | item :: rest, _, h => by
      obtain ⟨value, hvalue, h⟩ := Option.bind_eq_some_iff.mp h
      obtain ⟨values, hvalues, h⟩ := Option.bind_eq_some_iff.mp h
      cases h
      exact List.forall_mem_cons.mpr
        ⟨ordered_of_json? item hvalue, ordered_of_jsonItems? rest hvalues⟩

theorem ordered_of_jsonMembers? : ∀ (entries : List (String × Node))
    {members : List (String × Json)},
    jsonMembers? entries = some members → ∀ member ∈ members, member.2.Ordered
  | [], _, h => by
      cases h
      exact List.forall_mem_nil _
  | (key, node) :: rest, _, h => by
      obtain ⟨value, hvalue, h⟩ := Option.bind_eq_some_iff.mp h
      obtain ⟨members, hmembers, h⟩ := Option.bind_eq_some_iff.mp h
      cases h
      exact List.forall_mem_cons.mpr
        ⟨ordered_of_json? node hvalue, ordered_of_jsonMembers? rest hmembers⟩
end

/-! ## Members of a document -/

theorem mapM_eq_jsonMembers? (entries : List (String × Node)) :
    (entries.mapM fun (key, value) => value.json?.map (key, ·)) = jsonMembers? entries := by
  induction entries with
  | nil => rfl
  | cons entry entries ih =>
      obtain ⟨key, value⟩ := entry
      rw [List.mapM_cons, ih, jsonMembers?]
      show (value.json?.map (key, ·)).bind _ = value.json?.bind _
      rw [Option.bind_map]
      rfl

/-- The names stay the same. -/
theorem keys_of_jsonMembers? {entries : List (String × Node)} {members : List (String × Json)}
    (h : jsonMembers? entries = some members) :
    members.map Prod.fst = entries.map Prod.fst := by
  induction entries generalizing members with
  | nil =>
      obtain rfl := Option.some.inj h
      rfl
  | cons entry entries ih =>
      obtain ⟨value, -, h⟩ := Option.bind_eq_some_iff.mp h
      obtain ⟨rest, hrest, h⟩ := Option.bind_eq_some_iff.mp h
      obtain rfl := Option.some.inj h
      exact congrArg (entry.1 :: ·) (ih hrest)

/-! ## Values as documents -/

theorem jsonItems?_ofItems {items : List Json}
    (h : ∀ item ∈ items, (ofJson item).json? = some item) :
    jsonItems? (ofItems items) = some items := by
  induction items with
  | nil => rfl
  | cons item rest ih =>
      obtain ⟨hitem, hrest⟩ := List.forall_mem_cons.mp h
      rw [ofItems, jsonItems?, hitem, ih hrest]
      rfl

theorem jsonMembers?_ofMembers {members : List (String × Json)}
    (h : ∀ member ∈ members, (ofJson member.2).json? = some member.2) :
    jsonMembers? (ofMembers members) = some members := by
  induction members with
  | nil => rfl
  | cons member rest ih =>
      obtain ⟨key, value⟩ := member
      obtain ⟨hvalue, hrest⟩ := List.forall_mem_cons.mp h
      rw [ofMembers, jsonMembers?, hvalue, ih hrest]
      rfl

/-- **An ordered value is the value of its document.** -/
theorem json?_ofJson {value : Json} (ordered : value.Ordered) :
    (ofJson value).json? = some value := by
  induction ordered with
  | null => rfl
  | bool b => rfl
  | number n => rfl
  | string s => rfl
  | array _ ih =>
      rw [ofJson, json?, jsonItems?_ofItems ih]
      rfl
  | object sorted _ ih =>
      rw [ofJson, json?, jsonMembers?_ofMembers ih, Option.map_some, Json.ofMembers,
        sorted.ofList_eq]

end Node

end PageLoom
