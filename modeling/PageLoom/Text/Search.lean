/-!
# Searching — the first occurrence of a text in another

    Every scanner of the library that looks for a fixed text (a closing tag,
    a colon, the end of a comment) uses `cutAt`: it splits at the first
    occurrence and drops the text found.  `cutAt_eq_some` says that nothing
    else is lost.
-/

namespace PageLoom.Text

/-- What follows the text `lead` at the start of the second text, if it
    starts with it. -/
def afterLead : List Char → List Char → Option (List Char)
  | [], cs => some cs
  | _ :: _, [] => none
  | a :: lead, c :: cs => if a = c then afterLead lead cs else none

/-- `afterLead` takes exactly the lead away. -/
theorem afterLead_eq_some_iff {lead cs rest : List Char} :
    afterLead lead cs = some rest ↔ cs = lead ++ rest := by
  induction lead generalizing cs with
  | nil => simp [afterLead]
  | cons a lead ih =>
      cases cs with
      | nil => simp [afterLead]
      | cons c cs =>
          by_cases h : a = c
          · subst h
            simp [afterLead, ih]
          · simp only [afterLead, if_neg h, reduceCtorEq, List.cons_append, List.cons.injEq,
              false_iff, not_and]
            exact fun hc => absurd hc.symm h

/-- **First occurrence**: the text before and the text after the first
    occurrence of `needle`. -/
def cutAt (needle : List Char) : List Char → Option (List Char × List Char)
  | [] => (afterLead needle []).map ([], ·)
  | c :: cs =>
      match afterLead needle (c :: cs) with
      | some rest => some ([], rest)
      | none => (cutAt needle cs).map fun (before, after) => (c :: before, after)

/-- Only the occurrence found is taken out. -/
theorem cutAt_eq_some {needle cs before after : List Char}
    (h : cutAt needle cs = some (before, after)) : cs = before ++ needle ++ after := by
  induction cs generalizing before with
  | nil =>
      simp only [cutAt, Option.map_eq_some_iff, Prod.mk.injEq] at h
      obtain ⟨rest, hr, rfl, rfl⟩ := h
      simpa using afterLead_eq_some_iff.mp hr
  | cons c cs ih =>
      rw [cutAt] at h
      split at h
      · rename_i rest hr
        simp only [Option.some.injEq, Prod.mk.injEq] at h
        obtain ⟨rfl, rfl⟩ := h
        simpa using afterLead_eq_some_iff.mp hr
      · simp only [Option.map_eq_some_iff, Prod.mk.injEq, Prod.exists] at h
        obtain ⟨b, a, hba, rfl, rfl⟩ := h
        rw [ih hba]
        simp

/-- What stands before and after an occurrence is shorter than the whole. -/
theorem length_of_cutAt {needle cs before after : List Char}
    (h : cutAt needle cs = some (before, after)) :
    before.length + needle.length + after.length = cs.length := by
  rw [cutAt_eq_some h]
  simp only [List.length_append]

/-- Whether `needle` occurs in the text. -/
def occurs (needle cs : List Char) : Bool :=
  (cutAt needle cs).isSome

/-- Whether the string `needle` occurs in `s`. -/
def occursIn (needle s : String) : Bool :=
  occurs needle.toList s.toList

/-- The text before and after the first occurrence of a character. -/
def cutAtChar (x : Char) : List Char → Option (List Char × List Char)
  | [] => none
  | c :: cs =>
      if c = x then some ([], cs)
      else (cutAtChar x cs).map fun (before, after) => (c :: before, after)

/-- Only the character found is taken out, and it does not occur before. -/
theorem cutAtChar_eq_some_iff {x : Char} {cs before after : List Char} :
    cutAtChar x cs = some (before, after) ↔ cs = before ++ x :: after ∧ x ∉ before := by
  induction cs generalizing before with
  | nil => simp [cutAtChar]
  | cons c cs ih =>
      by_cases h : c = x
      · subst h
        cases before with
        | nil => simp [cutAtChar, eq_comm]
        | cons b before => simp [cutAtChar]; grind
      · cases before with
        | nil => simp [cutAtChar, h]
        | cons b before =>
            simp only [cutAtChar, if_neg h, Option.map_eq_some_iff, Prod.mk.injEq, Prod.exists,
              List.cons.injEq, List.cons_append, List.mem_cons, not_or]
            grind

/-- The parts of a text between the occurrences of a character, at least one. -/
def splitAtChar (x : Char) : List Char → List (List Char)
  | [] => [[]]
  | c :: cs =>
      match splitAtChar x cs with
      | [] => [[]]
      | part :: parts => if c = x then [] :: part :: parts else (c :: part) :: parts

/-- The strings before and after the first occurrence of a character. -/
def cutStringAt (x : Char) (s : String) : Option (String × String) :=
  (cutAtChar x s.toList).map fun (before, after) => (String.ofList before, String.ofList after)

/-- What follows the string `lead` at the start of `s`, if it starts with it. -/
def afterLeadOf (lead s : String) : Option String :=
  (afterLead lead.toList s.toList).map String.ofList

end PageLoom.Text
