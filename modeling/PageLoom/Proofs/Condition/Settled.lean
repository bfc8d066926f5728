import PageLoom.Proofs.Condition.Strict
import PageLoom.Proofs.Document.Settled

/-!
# Settled rules — conditions survive saving

    An operator without meaning keeps its name, a mode without meaning becomes
    one that has a name, and an expected value of another kind becomes a text.
    So rules and rule sets settle with their stored forms (`Rule.settles`,
    `RuleSet.settles`).  The lenient reader gives no other sets than those that
    documents give (`RuleSet.exists_ofNode?_ofJson`), and takes them back
    (`RuleSet.ofJson_toJson`).
-/

namespace PageLoom.Condition

/-- A known word is the name of its operator. -/
theorem Operator.name_of_known? {word : String} {operator : Operator}
    (h : known? word = some operator) : operator.name = word := by
  simp only [known?] at h
  repeat' split at h
  all_goals cases h
  all_goals
    rename_i hword
    exact (beq_iff_eq.mp hword).symm

/-- An operator is taken back by its name, an unknown one too: it keeps the word
    that was read. -/
theorem Operator.ofName_name_ofName (word : String) :
    ofName (name (ofName word)) = ofName word := by
  have hname : name (ofName word) = word := by
    rw [ofName]
    cases hknown : known? word with
    | none => rfl
    | some operator => exact name_of_known? hknown
  rw [hname]

/-- A mode is taken back by its name. -/
theorem MatchMode.ofName_name (mode : MatchMode) : ofName mode.name = mode := by
  cases mode with
  | all => decide
  | any => decide

/-- An expected value is taken back: a truth value as such, a text as itself. -/
theorem Expected.ofJson_toJson (value : Expected) : ofJson value.toJson = value := by
  cases value with
  | text s => rfl
  | bool b => rfl

theorem Expected.ordered_toJson (value : Expected) : value.toJson.Ordered := by
  cases value with
  | text s => exact .string s
  | bool b => exact .bool b

namespace Rule

theorem ordered_toJson (rule : Rule) : rule.toJson.Ordered := by
  refine Json.ordered_ofMembers ?_
  simp only [List.forall_mem_cons]
  exact ⟨.string _, .string _, rule.value.ordered_toJson, List.forall_mem_nil _⟩

/-- **Rules settle.**  An expected value of another kind has become a text when
    the rule was first read, and stays that text. -/
theorem settles : Node.Settles ofNode? toJson := by
  intro node rule h
  obtain ⟨stored, hstored, stores⟩ :=
    Record.ofNode?_stored ["field", "operator", "value"] rule.toJson rfl rfl (by decide)
  obtain ⟨record, -, h⟩ := Option.bind_eq_some_iff.mp h
  obtain ⟨field, hfield, h⟩ := Option.bind_eq_some_iff.mp h
  obtain ⟨operator, hoperator, h⟩ := Option.bind_eq_some_iff.mp h
  obtain ⟨value, hvalue, h⟩ := Option.bind_eq_some_iff.mp h
  obtain rfl := Option.some.inj h
  rw [ofNode?, hstored]
  refine stores.bind hfield rfl Node.settles_text rfl ?_
  refine stores.bind hoperator rfl (Node.settles_name Operator.ofName_name_ofName) rfl ?_
  have hexpected := Node.settles_json Expected.ordered_toJson fun value =>
    Expected.ofJson_toJson (.ofJson value)
  refine stores.bind hvalue rfl hexpected rfl ?_
  rfl

end Rule

namespace RuleSet

theorem ordered_toJson (set : RuleSet) : set.toJson.Ordered := by
  refine Json.ordered_ofMembers ?_
  simp only [List.forall_mem_cons]
  refine ⟨.string _, .array ?_, List.forall_mem_nil _⟩
  exact List.forall_mem_map.mpr fun rule _ => rule.ordered_toJson

/-- **Rule sets settle**: the mode by its name, the rules one by one. -/
theorem settles : Node.Settles ofNode? toJson := by
  intro node set h
  obtain ⟨stored, hstored, stores⟩ :=
    Record.ofNode?_stored ["match", "rules"] set.toJson rfl rfl (by decide)
  obtain ⟨record, -, h⟩ := Option.bind_eq_some_iff.mp h
  obtain ⟨mode, hmode, h⟩ := Option.bind_eq_some_iff.mp h
  obtain ⟨rules, hrules, h⟩ := Option.bind_eq_some_iff.mp h
  obtain rfl := Option.some.inj h
  rw [ofNode?, hstored]
  refine stores.bind hmode rfl (Node.settles_name fun _ => MatchMode.ofName_name _) rfl ?_
  refine stores.bind hrules rfl (Node.settles_list Rule.settles) rfl ?_
  rfl

/-! ## The lenient reader -/

/-- What is no object reads as the empty set, which the empty document gives. -/
theorem exists_ofNode?_ofObject (value : Json) : ∃ node, ofNode? node = some (ofObject value) := by
  have hempty : ∃ node, ofNode? node = some {} := ⟨.map [], rfl⟩
  cases value with
  | object members =>
      rw [ofObject]
      cases hset : ofNode? (.ofJson (.object members)) with
      | none => exact hempty
      | some set => exact ⟨_, hset⟩
  | _ => exact hempty

/-- A malformed text reads as the empty set. -/
theorem ofText_of_read_eq_none {text : String} (h : Json.read text = none) : ofText text = {} := by
  rw [ofText, h]
  exact ite_self _

/-- The same for texts, which may hold a text again: by induction on the layers. -/
theorem exists_ofNode?_ofText (text : String) : ∃ node, ofNode? node = some (ofText text) := by
  induction text using ofText.induct with
  | case1 text hblank =>
      rw [ofText, if_pos hblank]
      exact ⟨.map [], rfl⟩
  | case2 text hblank hread =>
      rw [ofText_of_read_eq_none hread]
      exact ⟨.map [], rfl⟩
  | case3 text hblank inner hread ih =>
      -- a string in the text, one layer further in
      rw [ofText_of_read hread]
      exact ih
  | case4 text hblank value hvalue hread =>
      rw [ofText_eq_ofObject hread hvalue]
      exact exists_ofNode?_ofObject value

/-- **Whatever the lenient reader gives**, some document gives. -/
theorem exists_ofNode?_ofJson (value : Json) : ∃ node, ofNode? node = some (ofJson value) := by
  cases value with
  | string text => exact exists_ofNode?_ofText text
  | null => exact exists_ofNode?_ofObject .null
  | bool b => exact exists_ofNode?_ofObject (.bool b)
  | number n => exact exists_ofNode?_ofObject (.number n)
  | array items => exact exists_ofNode?_ofObject (.array items)
  | object members => exact exists_ofNode?_ofObject (.object members)

/-- **A set that was read is taken back.** -/
theorem ofJson_toJson (value : Json) : ofJson (toJson (ofJson value)) = ofJson value := by
  obtain ⟨node, hnode⟩ := exists_ofNode?_ofJson value
  show (ofNode? (.ofJson (toJson (ofJson value)))).getD {} = _
  rw [settles hnode, Option.getD_some]

end RuleSet

end PageLoom.Condition
