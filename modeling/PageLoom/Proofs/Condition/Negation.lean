import PageLoom.Condition.RuleSet
import PageLoom.Proofs.Text.Cut

/-!
# Negated rules — when a rule and its negation disagree

    A rule with a known operator and the rule with the negated operator
    disagree, on whatever kind of fact they look at: the comparison with a
    fact is negated with the operator (`Fact.compare_negation`), and so is the
    comparison of truth values (`Rule.agrees_negation`).

    Two kinds of rules are never compared.  A rule on a field that the source
    does not know (`Rule.Unheard`) holds, and so does its negation; a rule on
    post meta that names no key (`Rule.Keyless`) fails, and so does its
    negation.  For all other rules (`Rule.Decided`) De Morgan's laws carry over
    to rule sets (`RuleSet.holds_all_negated`, `RuleSet.holds_any_negated`), as
    `RuleSet.de_morgan` puts together.
-/

namespace PageLoom.Condition

open Text

/-! ## Operators -/

/-- Whether an operator has a meaning. -/
def Operator.IsKnown (operator : Operator) : Prop :=
  ∀ name, operator ≠ .unknown name

/-- A known operator has a known negation. -/
theorem Operator.IsKnown.negation {operator : Operator} (h : operator.IsKnown) :
    operator.negation.IsKnown := by
  cases operator with
  | unknown name => exact absurd rfl (h name)
  | _ => exact fun _ => Operator.noConfusion

/-- **Comparison is negated with its operator.** -/
theorem Fact.compare_negation {operator : Operator} (h : operator.IsKnown) (fact : Fact)
    (expected : String) :
    fact.compare operator.negation expected = !fact.compare operator expected := by
  -- a known operator has a verdict on every kind of fact
  cases operator with
  | unknown name => exact absurd rfl (h name)
  | is => cases fact <;> rfl
  | contains => cases fact <;> rfl
  | isNot => cases fact <;> exact (Bool.not_not _).symm
  | notContains => cases fact <;> exact (Bool.not_not _).symm

namespace Rule

theorem agrees_negation {operator : Operator} (h : operator.IsKnown) (actual expected : Bool) :
    agrees operator.negation actual expected = !agrees operator actual expected := by
  cases operator with
  | unknown name => exact absurd rfl (h name)
  | is => rfl
  | contains => rfl
  | isNot => exact (Bool.not_not _).symm
  | notContains => exact (Bool.not_not _).symm

/-! ## Rules -/

/-- The rule with the negated operator. -/
def negated (rule : Rule) : Rule :=
  { rule with operator := rule.operator.negation }

/-- **An unheard rule** asks for a fact that the source does not know.  Post meta
    is always known. -/
def Unheard (facts : Facts) (rule : Rule) : Prop :=
  rule.field ≠ "meta" ∧ facts rule.field = none

/-- **A keyless rule** is on post meta and names no key. -/
def Keyless (rule : Rule) : Prop :=
  rule.field = "meta" ∧ ':' ∉ rule.value.asText.toList

/-- **A decided rule** has a known operator, and there is something to compare. -/
structure Decided (facts : Facts) (rule : Rule) : Prop where
  isKnown : rule.operator.IsKnown
  heard : ¬rule.Unheard facts
  keyed : ¬rule.Keyless

/-- A rule with a known operator is judged by its fact. -/
theorem holds_eq_holdsKnown {facts : Facts} {rule : Rule} (h : rule.operator.IsKnown) :
    rule.holds facts = rule.holdsKnown facts := by
  rw [holds]
  split
  · rename_i name hname
    exact absurd hname (h name)
  · rfl

/-- **A rule with an unknown operator holds.** -/
theorem holds_of_not_isKnown {facts : Facts} {rule : Rule} (h : ¬rule.operator.IsKnown) :
    rule.holds facts = true := by
  rw [holds]
  split
  · rfl
  · rename_i hknown
    exact absurd hknown h

/-- A string is cut at a character unless it does not have it. -/
theorem cutStringAt_eq_none_iff {x : Char} {s : String} :
    cutStringAt x s = none ↔ x ∉ s.toList := by
  rw [cutStringAt, Option.map_eq_none_iff, cutAtChar_eq_none_iff]

/-- The verdict on post meta, for a value that names a key. -/
theorem holdsMeta_negation {operator : Operator} (h : operator.IsKnown) (facts : Facts)
    {value : String} (hkey : ':' ∈ value.toList) :
    holdsMeta facts operator.negation value = !holdsMeta facts operator value := by
  rw [holdsMeta, holdsMeta]
  cases hcut : cutStringAt ':' value with
  | none => exact absurd hkey (cutStringAt_eq_none_iff.mp hcut)
  | some parts => exact Fact.compare_negation h _ parts.2

/-- **An unheard rule holds.** -/
theorem Unheard.holds {facts : Facts} {rule : Rule} (h : rule.Unheard facts) :
    rule.holds facts = true := by
  by_cases hknown : rule.operator.IsKnown
  · rw [holds_eq_holdsKnown hknown, holdsKnown, if_neg (by rw [beq_iff_eq]; exact h.1), h.2]
  · exact holds_of_not_isKnown hknown

/-- **A keyless rule fails.** -/
theorem Keyless.not_holds {facts : Facts} {rule : Rule} (h : rule.Keyless)
    (hknown : rule.operator.IsKnown) : rule.holds facts = false := by
  rw [holds_eq_holdsKnown hknown, holdsKnown, if_pos (beq_iff_eq.mpr h.1), holdsMeta,
    cutStringAt_eq_none_iff.mpr h.2]

/-- **A decided rule and its negation disagree.** -/
theorem Decided.holds_negated {facts : Facts} {rule : Rule} (h : rule.Decided facts) :
    rule.negated.holds facts = !rule.holds facts := by
  have hknown : rule.operator.IsKnown := h.isKnown
  have hnegated : rule.negated.operator.IsKnown := hknown.negation
  rw [holds_eq_holdsKnown hknown, holds_eq_holdsKnown hnegated]
  show holdsKnown facts ⟨rule.field, rule.operator.negation, rule.value⟩ = _
  rw [holdsKnown, holdsKnown]
  by_cases hmeta : rule.field = "meta"
  · -- what names a key is compared, and a keyless rule is not decided
    rw [if_pos (beq_iff_eq.mpr hmeta), if_pos (beq_iff_eq.mpr hmeta)]
    exact holdsMeta_negation hknown facts
      (Classical.byContradiction fun hkey => h.keyed ⟨hmeta, hkey⟩)
  · rw [if_neg (by rw [beq_iff_eq]; exact hmeta), if_neg (by rw [beq_iff_eq]; exact hmeta)]
    cases hfact : facts rule.field with
    | none => exact absurd ⟨hmeta, hfact⟩ h.heard
    | some fact =>
        -- a truth value under `logged_in` is the only fact with a comparison of its own
        dsimp only
        cases rule.field == "logged_in" with
        | false => exact Fact.compare_negation hknown fact _
        | true =>
            cases fact with
            | bool actual => exact agrees_negation hknown actual _
            | _ => exact Fact.compare_negation hknown _ _

end Rule

/-! ## Rule sets -/

namespace RuleSet

/-- The verdict of all rules of a set that has some. -/
theorem holds_all {facts : Facts} {rules : List Rule} (h : rules ≠ []) :
    holds facts ⟨.all, rules⟩ = rules.all (·.holds facts) := by
  rw [holds, List.isEmpty_eq_false_iff.mpr h, Bool.false_or]

/-- The verdict of any rule of a set that has some. -/
theorem holds_any {facts : Facts} {rules : List Rule} (h : rules ≠ []) :
    holds facts ⟨.any, rules⟩ = rules.any (·.holds facts) := by
  rw [holds, List.isEmpty_eq_false_iff.mpr h, Bool.false_or]

section

variable {facts : Facts} {rules : List Rule}

/-- **All rules hold exactly when no negation does.** -/
theorem holds_all_negated (hne : rules ≠ []) (h : ∀ rule ∈ rules, rule.Decided facts) :
    holds facts ⟨.all, rules⟩ = !holds facts ⟨.any, rules.map Rule.negated⟩ := by
  rw [holds_all hne, holds_any (by rwa [ne_eq, List.map_eq_nil_iff])]
  clear hne
  induction rules with
  | nil => rfl
  | cons rule rules ih =>
      obtain ⟨hrule, hrules⟩ := List.forall_mem_cons.mp h
      rw [List.all_cons, List.map_cons, List.any_cons, Bool.not_or, hrule.holds_negated,
        Bool.not_not, ih hrules]

/-- **Any rule holds exactly when not all negations do.** -/
theorem holds_any_negated (hne : rules ≠ []) (h : ∀ rule ∈ rules, rule.Decided facts) :
    holds facts ⟨.any, rules⟩ = !holds facts ⟨.all, rules.map Rule.negated⟩ := by
  rw [holds_any hne, holds_all (by rwa [ne_eq, List.map_eq_nil_iff])]
  clear hne
  induction rules with
  | nil => rfl
  | cons rule rules ih =>
      obtain ⟨hrule, hrules⟩ := List.forall_mem_cons.mp h
      rw [List.any_cons, List.map_cons, List.all_cons, Bool.not_and, hrule.holds_negated,
        Bool.not_not, ih hrules]

end

/-- **Negation and De Morgan's laws**: a rule with a known operator and its
    negation disagree, except that both hold where the fact is unknown and both
    fail where post meta is asked for without a key; so for rules without these
    exceptions the sets of both modes are each other's negation.  A rule with an
    unknown operator holds. -/
theorem de_morgan (facts : Facts) :
    (∀ rule : Rule, rule.operator.IsKnown →
      (rule.Unheard facts → rule.holds facts = true ∧ rule.negated.holds facts = true) ∧
      (rule.Keyless → rule.holds facts = false ∧ rule.negated.holds facts = false) ∧
      (¬rule.Unheard facts → ¬rule.Keyless → rule.negated.holds facts = !rule.holds facts)) ∧
    (∀ rules : List Rule, rules ≠ [] → (∀ rule ∈ rules, rule.Decided facts) →
      holds facts ⟨.all, rules⟩ = !holds facts ⟨.any, rules.map Rule.negated⟩ ∧
      holds facts ⟨.any, rules⟩ = !holds facts ⟨.all, rules.map Rule.negated⟩) ∧
    ∀ rule : Rule, ¬rule.operator.IsKnown → rule.holds facts = true := by
  refine ⟨fun rule hknown => ⟨fun hunheard => ?_, fun hkeyless => ?_, fun hheard hkeyed => ?_⟩,
    fun rules hne h => ⟨holds_all_negated hne h, holds_any_negated hne h⟩,
    fun rule => Rule.holds_of_not_isKnown⟩
  · -- the negation asks for the same field, and for the same key below
    have hnegated : rule.negated.Unheard facts := hunheard
    exact ⟨hunheard.holds, hnegated.holds⟩
  · have hnegated : rule.negated.Keyless := hkeyless
    exact ⟨hkeyless.not_holds hknown, hnegated.not_holds hknown.negation⟩
  · exact Rule.Decided.holds_negated ⟨hknown, hheard, hkeyed⟩

/-- Two rules that a visitor meets in part, one of them on post meta that the
    source does not know. -/
theorem de_morgan_visitor :
    let facts : Facts := fun field => if field == "logged_in" then some (.bool true) else none
    let rules : List Rule :=
      [⟨"logged_in", .contains, .text "true"⟩, ⟨"meta", .notContains, .text "color:red"⟩]
    rules ≠ [] ∧ (∀ rule ∈ rules, rule.Decided facts) ∧
      holds facts ⟨.all, rules⟩ = true ∧ holds facts ⟨.any, rules.map Rule.negated⟩ = false := by
  intro facts rules
  have hdecided : ∀ rule ∈ rules, rule.Decided facts := by
    refine List.forall_mem_cons.mpr ⟨⟨fun _ => Operator.noConfusion, ?_, ?_⟩,
      List.forall_mem_singleton.mpr ⟨fun _ => Operator.noConfusion, ?_, ?_⟩⟩
    · exact fun h => absurd h.2 (by decide)
    · exact fun h => absurd h.1 (by decide)
    · exact fun h => h.1 rfl
    · exact fun h => h.2 (by decide)
  have hall : holds facts ⟨.all, rules⟩ = true := by decide +kernel
  have hlaw := ((de_morgan facts).2.1 rules (List.cons_ne_nil _ _) hdecided).1
  rw [hall, eq_comm, Bool.not_eq_true'] at hlaw
  exact ⟨List.cons_ne_nil _ _, hdecided, hall, hlaw⟩

end RuleSet

end PageLoom.Condition
