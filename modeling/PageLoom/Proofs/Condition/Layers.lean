import PageLoom.Proofs.Condition.Settled
import PageLoom.Proofs.Json.Literals

/-!
# Layers — the two readers of stored conditions end

    A stored text is read by handing its value on, and a value that is a
    string by handing on its text: two readers that call each other, each call
    made last (`Call.step`).  No limit is set to the layers.  Each call has
    fewer bytes to read than the one that makes it, a string being shorter
    than its literal (`Call.bytes_lt`), so from every call on the readers return,
    after as many calls as there are bytes at most (`Call.returns`).
-/

namespace PageLoom.Condition.RuleSet

open Text

/-- A call of one of the two readers. -/
inductive Call
  /-- of a stored text -/
  | stored (text : String)
  /-- of a decoded value -/
  | decoded (value : Json)

namespace Call

/-- **What a call does**: it calls on, or returns a rule set. -/
def step : Call → Call ⊕ RuleSet
  | .stored text =>
      if isBlankText text then .inr {}
      else
        match Json.read text with
        | some value => .inl (.decoded value)
        | none => .inr {}
  | .decoded (.string text) => .inl (.stored text)
  | .decoded value => .inr (ofObject value)

/-- **A call that returns** a rule set, after so many calls with its own. -/
inductive Returns : Nat → Call → RuleSet → Prop
  | last {call : Call} {set : RuleSet} : call.step = .inr set → Returns 1 call set
  | next {calls : Nat} {call inner : Call} {set : RuleSet} :
      call.step = .inl inner → Returns calls inner set → Returns (calls + 1) call set

/-- The reading of a call's argument. -/
def result : Call → RuleSet
  | .stored text => ofText text
  | .decoded value => ofJson value

/-- The bytes that a call has to read, a string counted with the quotes of its
    literal and each call for one more. -/
def bytes : Call → Nat
  | .stored text => text.utf8ByteSize + 1
  | .decoded (.string text) => text.utf8ByteSize + 2
  | .decoded _ => 1

/-! ## One call -/

theorem utf8ByteSize_pos {text : String} (h : isBlankText text ≠ true) :
    0 < text.utf8ByteSize := by
  refine Nat.pos_of_ne_zero fun hzero => h ?_
  rw [String.utf8ByteSize_eq_zero_iff.mp hzero]
  rfl

/-- **A call has fewer bytes to read** than the one that makes it. -/
theorem bytes_lt {call inner : Call} (h : call.step = .inl inner) : inner.bytes < call.bytes := by
  cases call with
  | stored text =>
      rw [step] at h
      split at h
      · cases h
      · rename_i hblank
        have hpos := utf8ByteSize_pos hblank
        split at h
        · rename_i value hread
          cases h
          cases value with
          | string s =>
              have := Json.utf8ByteSize_of_read_string hread
              show s.utf8ByteSize + 2 < text.utf8ByteSize + 1
              omega
          | _ => exact Nat.succ_lt_succ hpos
        · cases h
  | decoded value =>
      cases value with
      | string s =>
          cases h
          exact Nat.lt_succ_self _
      | _ => cases h

/-- A call that calls on reads what the other one reads. -/
theorem result_of_call {call inner : Call} (h : call.step = .inl inner) :
    call.result = inner.result := by
  cases call with
  | stored text =>
      rw [step] at h
      split at h
      · cases h
      split at h
      · rename_i value hread
        cases h
        exact ofText_of_read hread
      · cases h
  | decoded value =>
      cases value with
      | string text =>
          cases h
          rfl
      | _ => cases h

/-- A call that returns a rule set reads it. -/
theorem result_of_return {call : Call} {set : RuleSet} (h : call.step = .inr set) :
    call.result = set := by
  cases call with
  | stored text =>
      rw [step] at h
      split at h
      · rename_i hblank
        cases h
        rw [result, ofText, if_pos hblank]
      split at h
      · cases h
      · rename_i hnone
        cases h
        exact ofText_of_read_eq_none hnone
  | decoded value =>
      cases value with
      | string text => cases h
      | _ =>
          cases h
          rfl

/-! ## All calls -/

/-- **Every call returns** what it reads, after as many calls as it has bytes to
    read at most. -/
theorem returns (call : Call) : ∃ calls ≤ call.bytes, Returns calls call call.result := by
  induction hbytes : call.bytes using Nat.strongRecOn generalizing call with
  | ind n ih =>
      subst hbytes
      cases hstep : call.step with
      | inl inner =>
          have hlt := bytes_lt hstep
          obtain ⟨calls, hcalls, hreturns⟩ := ih inner.bytes hlt inner rfl
          rw [← result_of_call hstep] at hreturns
          exact ⟨calls + 1, Nat.lt_of_le_of_lt hcalls hlt, .next hstep hreturns⟩
      | inr set =>
          have hpos : 1 ≤ call.bytes := by
            cases call with
            | stored text => exact Nat.le_add_left ..
            | decoded value =>
                cases value with
                | string s => exact Nat.le_add_left ..
                | _ => exact Nat.le_refl 1
          refine ⟨1, hpos, ?_⟩
          rw [result_of_return hstep]
          exact .last hstep

end Call

/-- **Peeling ends.**  A text is read as a string when it is a literal of it,
    with white space around; a literal has two bytes more than its text at
    least; and both readers return from every call. -/
theorem ends_of_layers :
    (∀ text s : String, Json.read text = some (.string s) ↔
      Json.IsLiteral text.toList s.toList) ∧
    (∀ text s : String, Json.IsLiteral text.toList s.toList →
      s.utf8ByteSize + 2 ≤ text.utf8ByteSize) ∧
    ∀ call : Call, ∃ calls ≤ call.bytes, call.Returns calls call.result :=
  ⟨fun _ _ => Json.read_eq_string_iff,
    fun _ _ h => Json.utf8ByteSize_of_read_string (Json.read_eq_string_iff.mpr h),
    Call.returns⟩

end PageLoom.Condition.RuleSet
