import PageLoom.Condition.RuleSet
import PageLoom.Proofs.Document.Fields
import PageLoom.Proofs.Text.Trim

/-!
# Strict reading — when both readers of conditions agree

    The strict reader takes a text whose value reads as a rule set, if the
    mode it finds in an object is known and every operator that was read is
    (`ofTextStrict_eq_ok`).  Every operator that the value writes is then one
    of the four known ones (`knownOperators_of_read`).

    The lenient reader takes objects only.  So both readers agree, and the
    mode that is written is known, exactly when the value is an object or the
    set is the one without rules that stands for everything else
    (`agrees_iff_of_ofTextStrict`): an array, which gives the fields of a set
    by their places, is taken by the strict reader alone
    (`not_agrees_array`).
-/

namespace PageLoom.Json

open Text

/-! ## Blank texts -/

/-- White space stands between tokens, or is not JSON. -/
theorem step_of_isBlank {c : Char} (h : isBlank c = true) :
    Lexing.between.step c = some ([], .between) ∨ Lexing.between.step c = none := by
  by_cases hgap : isGap c = true
  · exact Or.inl (if_pos hgap)
  · have hquote : ¬(c == '"') = true := by
      rw [beq_iff_eq]
      exact ne_of_isBlank h (by decide)
    have hword : ¬isWordPart c = true := by
      have hmark : ∀ d, isBlank d = false → (c == d) = false := fun d hd =>
        beq_eq_false_iff_ne.mpr (ne_of_isBlank h hd)
      rw [isWordPart, isAlphanum_of_isBlank h, hmark '+' (by decide), hmark '-' (by decide),
        hmark '.' (by decide)]
      exact Bool.false_ne_true
    refine Or.inr ?_
    show Lexing.step.between c = none
    rw [Lexing.step.between.eq_def, if_neg hgap, if_neg hquote, if_neg hword]
    split
    all_goals first | exact absurd h (by decide) | rfl

theorem tokensFrom_of_allBlank {cs : List Char} (h : AllBlank cs) {tokens : List Token}
    (htokens : tokensFrom .between cs = some tokens) : tokens = [] := by
  induction cs generalizing tokens with
  | nil => exact (Option.some.inj htokens).symm
  | cons c cs ih =>
      obtain ⟨hc, hcs⟩ := allBlank_cons.mp h
      rw [tokensFrom] at htokens
      obtain ⟨⟨first, state⟩, hstep, htokens⟩ := Option.bind_eq_some_iff.mp htokens
      obtain ⟨rest, hrest, htokens⟩ := Option.bind_eq_some_iff.mp htokens
      rcases step_of_isBlank hc with hgap | hnone
      · obtain ⟨rfl, rfl⟩ := Prod.mk.inj (Option.some.inj (hgap.symm.trans hstep))
        obtain rfl := ih hcs hrest
        exact (Option.some.inj htokens).symm
      · rw [hnone] at hstep
        cases hstep

/-- **A blank text is not JSON.** -/
theorem read_of_isBlankText {text : String} (h : isBlankText text = true) : read text = none := by
  rw [read, readChars]
  cases htokens : tokensFrom .between text.toList with
  | none => rfl
  | some tokens =>
      rw [tokensFrom_of_allBlank (allBlank_iff_all.mp h) htokens]
      rfl

end PageLoom.Json

namespace PageLoom.Condition

/-! ## What a value writes -/

/-- The names of the operators with a meaning. -/
def Operator.knownNames : List String :=
  ["is", "is_not", "contains", "not_contains"]

/-- The operator that the value of a rule writes. -/
def Rule.writtenOperator? (value : Json) : Option Json :=
  value.field? ["field", "operator", "value"] "operator"

namespace RuleSet

/-- The mode that the value of a rule set writes. -/
def writtenMode? (value : Json) : Option Json :=
  value.field? ["match", "rules"] "match"

/-- The values of the rules that the value of a rule set writes. -/
def writtenRules (value : Json) : List Json :=
  match value.field? ["match", "rules"] "rules" with
  | some (.array rules) => rules
  | _ => []

/-- Whether the mode, if one is written, is `all` or `any`. -/
def KnownMode (value : Json) : Prop :=
  ∀ mode, writtenMode? value = some mode → mode = .string "all" ∨ mode = .string "any"

/-- Whether every operator that is written is one of the four. -/
def KnownOperators (value : Json) : Prop :=
  ∀ rule ∈ writtenRules value, ∀ operator, Rule.writtenOperator? rule = some operator →
    ∃ name ∈ Operator.knownNames, operator = .string name

end RuleSet

/-! ## Words -/

theorem Operator.mem_knownNames {name : String} (h : ∀ other, ofName name ≠ .unknown other) :
    name ∈ knownNames := by
  refine Classical.byContradiction fun hname => h name ?_
  simp only [knownNames, List.mem_cons, List.not_mem_nil, or_false, not_or] at hname
  obtain ⟨his, hisNot, hcontains, hnotContains⟩ := hname
  rw [ofName, known?, if_neg (by rwa [beq_iff_eq]), if_neg (by rwa [beq_iff_eq]),
    if_neg (by rwa [beq_iff_eq]), if_neg (by rwa [beq_iff_eq])]
  rfl

theorem MatchMode.eq_of_ofNameStrict {name : String} {mode : MatchMode}
    (h : ofNameStrict name = .ok mode) : name = "all" ∨ name = "any" := by
  rw [ofNameStrict] at h
  by_cases hall : name = "all"
  · exact Or.inl hall
  · by_cases hany : name = "any"
    · exact Or.inr hany
    · rw [if_neg (by rwa [beq_iff_eq]), if_neg (by rwa [beq_iff_eq])] at h
      cases h

theorem MatchMode.eq_all_of_ofName {name : String} (h : ofName name = .all) : name = "all" := by
  refine Classical.byContradiction fun hname => ?_
  rw [ofName, if_neg (by rwa [beq_iff_eq])] at h
  cases h

/-! ## Rules -/

/-- The operator of a rule is the one that its value writes. -/
theorem Rule.operator_of_ofNode? {value operator : Json} {rule : Rule}
    (h : ofNode? (Node.ofJson value) = some rule) (hwritten : writtenOperator? value = some operator) :
    ∃ name, operator = .string name ∧ rule.operator = .ofName name := by
  obtain ⟨record, hrecord, h⟩ := Option.bind_eq_some_iff.mp h
  obtain ⟨field, -, h⟩ := Option.bind_eq_some_iff.mp h
  obtain ⟨read, hread, h⟩ := Option.bind_eq_some_iff.mp h
  obtain ⟨expected, -, h⟩ := Option.bind_eq_some_iff.mp h
  obtain rfl := Option.some.inj h
  rcases Record.get_ofJson hrecord (List.mem_cons_of_mem _ List.mem_cons_self) hread with
    ⟨hnone, -⟩ | ⟨node, hsome, hnode⟩
  · rw [writtenOperator?, hnone] at hwritten
    cases hwritten
  · obtain rfl := Option.some.inj (hsome.symm.trans hwritten)
    obtain ⟨name, hname, rfl⟩ := Option.map_eq_some_iff.mp hnode
    exact ⟨name, Node.text?_ofJson_eq_some.mp hname, rfl⟩

namespace RuleSet

theorem ne_unknown_of_checkOperators {rules : List Rule} (h : checkOperators rules = .ok ()) :
    ∀ rule ∈ rules, ∀ name, rule.operator ≠ .unknown name := by
  induction rules with
  | nil => exact List.forall_mem_nil _
  | cons rule rules ih =>
      rw [checkOperators] at h
      cases hoperator : rule.operator with
      | unknown name =>
          rw [hoperator] at h
          cases h
      | _ =>
          rw [hoperator] at h
          refine List.forall_mem_cons.mpr ⟨fun name => ?_, ih h⟩
          rw [hoperator]
          exact Operator.noConfusion

theorem exists_of_mapM {items : List Json} {rules : List Rule}
    (h : items.mapM (fun item => Rule.ofNode? (Node.ofJson item)) = some rules) :
    ∀ item ∈ items, ∃ rule ∈ rules, Rule.ofNode? (Node.ofJson item) = some rule := by
  induction items generalizing rules with
  | nil => exact List.forall_mem_nil _
  | cons item items ih =>
      rw [List.mapM_cons] at h
      obtain ⟨rule, hrule, h⟩ := Option.bind_eq_some_iff.mp h
      obtain ⟨rest, hrest, h⟩ := Option.bind_eq_some_iff.mp h
      obtain rfl := Option.some.inj h
      refine List.forall_mem_cons.mpr ⟨⟨rule, List.mem_cons_self, hrule⟩, ?_⟩
      intro other hother
      obtain ⟨read, hmem, hread⟩ := ih hrest other hother
      exact ⟨read, List.mem_cons_of_mem _ hmem, hread⟩

/-- **What is read from a value**: the mode that it writes, and a rule for each
    rule that it writes. -/
theorem of_ofNode? {value : Json} {set : RuleSet} (h : ofNode? (Node.ofJson value) = some set) :
    ((∃ members, value = .object members) ∨ ∃ items, value = .array items) ∧
      (∀ mode, writtenMode? value = some mode →
        ∃ name, mode = .string name ∧ set.mode = .ofName name) ∧
      ∀ item ∈ writtenRules value, ∃ rule ∈ set.rules,
        Rule.ofNode? (Node.ofJson item) = some rule := by
  obtain ⟨record, hrecord, h⟩ := Option.bind_eq_some_iff.mp h
  obtain ⟨mode, hmode, h⟩ := Option.bind_eq_some_iff.mp h
  obtain ⟨rules, hrules, h⟩ := Option.bind_eq_some_iff.mp h
  obtain rfl := Option.some.inj h
  refine ⟨(Record.ofNode?_ofJson hrecord).1, ?_, ?_⟩
  · intro written hwritten
    rcases Record.get_ofJson hrecord List.mem_cons_self hmode with
      ⟨hnone, -⟩ | ⟨node, hsome, hnode⟩
    · rw [writtenMode?, hnone] at hwritten
      cases hwritten
    · obtain rfl := Option.some.inj (hsome.symm.trans hwritten)
      obtain ⟨name, hname, rfl⟩ := Option.map_eq_some_iff.mp hnode
      exact ⟨name, Node.text?_ofJson_eq_some.mp hname, rfl⟩
  · rw [writtenRules]
    rcases Record.get_ofJson hrecord (List.mem_cons_of_mem _ List.mem_cons_self) hrules with
      ⟨hnone, -⟩ | ⟨node, hsome, hnode⟩
    · rw [hnone]
      exact List.forall_mem_nil _
    · obtain ⟨items, rfl, hitems⟩ := Node.list?_ofJson hnode
      rw [hsome]
      exact exists_of_mapM hitems

/-! ## The readers -/

theorem ofTextStrict_eq_ok {text : String} {set : RuleSet} (h : ofTextStrict text = .ok set) :
    ∃ value, Json.read text = some value ∧ checkMode value = .ok () ∧
      ofNode? (Node.ofJson value) = some set ∧ checkOperators set.rules = .ok () := by
  -- what fails one of the checks is an error, so each has passed
  rw [ofTextStrict] at h
  cases hread : Json.read text with
  | none =>
      rw [hread] at h
      cases h
  | some value =>
      simp only [hread] at h
      cases hmode : checkMode value with
      | error fault =>
          rw [hmode] at h
          cases h
      | ok _ =>
          simp only [hmode, bind, Except.bind] at h
          cases hset : ofNode? (Node.ofJson value) with
          | none =>
              rw [hset] at h
              cases h
          | some read =>
              simp only [hset] at h
              cases hoperators : checkOperators read.rules with
              | error fault =>
                  rw [hoperators] at h
                  cases h
              | ok _ =>
                  rw [hoperators] at h
                  cases h
                  exact ⟨value, rfl, hmode, hset, hoperators⟩

/-- A mode in an object has passed the check. -/
theorem knownMode_of_checkMode {members : List (String × Json)} {set : RuleSet}
    (hmode : checkMode (.object members) = .ok ())
    (hset : ofNode? (Node.ofJson (.object members)) = some set) : KnownMode (.object members) := by
  intro mode hwritten
  obtain ⟨name, rfl, -⟩ := (of_ofNode? hset).2.1 mode hwritten
  have hstring : ((Json.object members).member? "match").bind Json.string? = some name := by
    rw [show (Json.object members).member? "match" = some (.string name) from hwritten]
    rfl
  rw [checkMode, hstring] at hmode
  change Except.map _ (MatchMode.ofNameStrict name) = .ok () at hmode
  cases hstrict : MatchMode.ofNameStrict name with
  | error fault =>
      rw [hstrict] at hmode
      cases hmode
  | ok _ =>
      rcases MatchMode.eq_of_ofNameStrict hstrict with rfl | rfl
      · exact Or.inl rfl
      · exact Or.inr rfl

/-- The operators that were read are the ones that are written. -/
theorem knownOperators_of_read {value : Json} {set : RuleSet}
    (hset : ofNode? (Node.ofJson value) = some set) (hoperators : checkOperators set.rules = .ok ()) :
    KnownOperators value := by
  intro item hitem operator hwritten
  obtain ⟨rule, hrule, hread⟩ := (of_ofNode? hset).2.2 item hitem
  obtain ⟨name, rfl, hname⟩ := Rule.operator_of_ofNode? hread hwritten
  refine ⟨name, Operator.mem_knownNames ?_, rfl⟩
  rw [← hname]
  exact ne_unknown_of_checkOperators hoperators rule hrule

/-- **The lenient reader goes by the value of a text.** -/
theorem ofText_of_read {text : String} {value : Json} (h : Json.read text = some value) :
    ofText text = ofJson value := by
  have hblank : ¬Text.isBlankText text = true := by
    intro hblank
    rw [Json.read_of_isBlankText hblank] at h
    cases h
  rw [ofText, if_neg hblank]
  split
  · rename_i hnone
    rw [h] at hnone
    cases hnone
  · rename_i inner hstring
    rw [Option.some.inj (h.symm.trans hstring)]
    rfl
  · rename_i other hother hvalue
    rw [Option.some.inj (h.symm.trans hvalue)]
    cases other with
    | string inner => exact absurd rfl (hother inner)
    | _ => rfl

theorem ofText_eq_ofObject {text : String} {value : Json} (h : Json.read text = some value)
    (hvalue : ∀ s, value ≠ .string s) : ofText text = ofObject value := by
  rw [ofText_of_read h]
  cases value with
  | string s => exact absurd rfl (hvalue s)
  | _ => rfl

theorem eq_ok_of_toOption {result : Except Fault RuleSet} {set : RuleSet}
    (h : result.toOption = some set) : result = .ok set := by
  cases result with
  | error fault => cases h
  | ok read => exact congrArg Except.ok (Option.some.inj h)

/-- **When both readers agree**: a text that the strict reader accepts writes
    known operators only; its mode is known and the lenient reader reads the
    same set exactly when its value is an object, or the set is the one that
    the lenient reader falls back to. -/
theorem agrees_iff_of_ofTextStrict {text : String} {set : RuleSet}
    (h : ofTextStrict text = .ok set) :
    ∃ value, Json.read text = some value ∧ KnownOperators value ∧
      (ofText text = set ∧ KnownMode value ↔ (∃ members, value = .object members) ∨ set = {}) := by
  obtain ⟨value, hread, hmode, hset, hoperators⟩ := ofTextStrict_eq_ok h
  obtain ⟨hshape, hwritten, -⟩ := of_ofNode? hset
  refine ⟨value, hread, knownOperators_of_read hset hoperators, ?_⟩
  rcases hshape with ⟨members, rfl⟩ | ⟨items, rfl⟩
  · -- an object is taken by both readers, and its mode was checked
    have hlenient : ofText text = set := by
      rw [ofText_eq_ofObject hread fun _ => Json.noConfusion, ofObject, hset, Option.getD_some]
    exact iff_of_true ⟨hlenient, knownMode_of_checkMode hmode hset⟩ (Or.inl ⟨members, rfl⟩)
  · -- an array is nothing to the lenient reader, and its mode was not checked
    have hlenient : ofText text = {} := ofText_eq_ofObject hread fun _ => Json.noConfusion
    constructor
    · rintro ⟨hagrees, -⟩
      exact Or.inr (hagrees.symm.trans hlenient)
    · rintro (⟨members, hmembers⟩ | rfl)
      · cases hmembers
      · refine ⟨hlenient, ?_⟩
        intro mode hmode
        -- the set that is fallen back to has the mode `all`, which one name alone gives
        obtain ⟨name, rfl, hname⟩ := hwritten mode hmode
        exact Or.inl (congrArg Json.string (MatchMode.eq_all_of_ofName hname.symm))

/-- A set whose rules stand as an array and as an object is read alike. -/
theorem agrees_iff_of_ofTextStrict_object :
    let text := "\x7b\"match\":\"any\",\"rules\":[[\"tag\",\"is\",\"news\"],\x7b\"operator\":\"is_not\"\x7d]\x7d"
    let set : RuleSet := ⟨.any, [⟨"tag", .is, .text "news"⟩, ⟨"", .isNot, .text ""⟩]⟩
    ofTextStrict text = .ok set ∧ ofText text = set ∧
      ∃ value, Json.read text = some value ∧ KnownMode value ∧ KnownOperators value := by
  intro text set
  have hstrict : ofTextStrict text = .ok set := eq_ok_of_toOption (by decide +kernel)
  obtain ⟨value, hread, hoperators, hagrees⟩ := agrees_iff_of_ofTextStrict hstrict
  have hmember : ((Json.read text).bind (Json.member? "match")).isSome = true := by decide +kernel
  rw [hread] at hmember
  have hobject : ∃ members, value = .object members := by
    cases value with
    | object members => exact ⟨members, rfl⟩
    | _ => cases hmember
  obtain ⟨hlenient, hmode⟩ := hagrees.mpr (Or.inl hobject)
  exact ⟨hstrict, hlenient, value, hread, hmode, hoperators⟩

/-- **An array is taken by the strict reader alone**: the set that it gives asks
    for a visitor, the one that the lenient reader falls back to holds for
    everybody. -/
theorem not_agrees_array :
    let text := "[\"all\",[[\"logged_in\",\"is\",true]]]"
    ofTextStrict text = .ok ⟨.all, [⟨"logged_in", .is, .bool true⟩]⟩ ∧ ofText text = {} :=
  ⟨eq_ok_of_toOption (by decide +kernel), by decide +kernel⟩

end RuleSet

end PageLoom.Condition
