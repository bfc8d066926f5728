import PageLoom.Proofs.Css.Leads

/-!
# Strings, as the reader meets them

    A token takes an escape in a string at once: a line end of one character
    or two, up to six digits with one white space after them, or a single
    character.  The reader takes the same way step by step
    (`Leads.escaped`), so it leaves a string where its token ends, and stops
    where a line end breaks the string (`acts_string`).
-/

namespace PageLoom.Css

open Text Token

/-! ## Strings -/

/-- The white space that ends an escape. -/
def escapeEnd (t : List Char) : Nat :=
  match t with
  | c :: _ => if c == ' ' || c == '\t' then 1 else newlineLength t
  | [] => 0

theorem newlineLength_of_not {c : Char} (h : isNewline c = false) (t : List Char) :
    newlineLength (c :: t) = 0 := by
  unfold newlineLength
  split
  · rename_i heq
    obtain ⟨rfl, -⟩ := List.cons.inj heq
    cases h
  · rename_i heq
    obtain ⟨rfl, rfl⟩ := List.cons.inj heq
    exact if_neg (by rw [h]; exact Bool.false_ne_true)
  · rfl

namespace Leads

variable {quote : Char} {stack : List Bracket}

/-- A line end that belongs to an escape. -/
theorem lineEnd {c : Char} (h : isNewline c = true) (t : List Char) :
    Leads ⟨Mode.lineEnd quote c, stack⟩ t ⟨.string quote .plain, stack⟩
      ((c :: t).drop (newlineLength (c :: t))) := by
  by_cases hc : c = '\r'
  · subst hc
    cases t with
    | nil => exact nil _ _
    | cons d t =>
        by_cases hd : d = '\n'
        · subst hd
          exact quiet rfl rfl stack t
        · have hlength : newlineLength ('\r' :: d :: t) = 1 := by
            unfold newlineLength
            split
            · rename_i heq
              exact absurd (List.cons.inj (List.cons.inj heq).2).1 hd
            · rename_i heq
              rw [← (List.cons.inj heq).1]
              rfl
            · rename_i heq
              cases heq
          rw [hlength]
          refine alike rfl (fun _ _ => rfl) ?_
          rintro e s ⟨rfl, rfl⟩
          exact if_neg hd
  · have hlength : newlineLength (c :: t) = 1 := by
      unfold newlineLength
      split
      · rename_i heq
        exact absurd (List.cons.inj heq).1 hc
      · rename_i heq
        rw [← (List.cons.inj heq).1, if_pos h]
      · rename_i heq
        cases heq
    rw [hlength, Mode.lineEnd, if_neg hc]
    exact refl _ _

/-- The rest of a hexadecimal escape. -/
theorem hex {n : Nat} (hn : n ≤ 6) (t : List Char) :
    Leads ⟨.string quote (.hex n), stack⟩ t ⟨.string quote .plain, stack⟩
      ((t.drop ((t.take (6 - n)).takeWhile isHex).length).drop
        (escapeEnd (t.drop ((t.take (6 - n)).takeWhile isHex).length))) := by
  induction t generalizing n with
  | nil =>
      rw [List.take_nil]
      exact nil _ _
  | cons c t ih =>
      by_cases hdigit : isHex c = true ∧ n < 6
      · have htake : (c :: t).take (6 - n) = c :: t.take (6 - (n + 1)) := by
          have : 6 - n = 6 - (n + 1) + 1 := by omega
          rw [this, List.take_succ_cons]
        rw [htake, List.takeWhile_cons, if_pos hdigit.1, List.length_cons, List.drop_succ_cons]
        have hnext : (Mode.string quote (.hex n)).next c = some (.string quote (.hex (n + 1))) :=
          if_pos (by simpa using hdigit)
        exact (quiet hnext rfl stack t).trans (ih hdigit.2)
      · have hnone : ((c :: t).take (6 - n)).takeWhile isHex = [] := by
          rcases Nat.lt_or_ge n 6 with hlt | hge
          · have : 6 - n = 6 - (n + 1) + 1 := by omega
            rw [this, List.take_succ_cons, List.takeWhile_cons,
              if_neg fun h => hdigit ⟨h, hlt⟩]
          · have : 6 - n = 0 := by omega
            rw [this]
            rfl
        have hnext : (Mode.string quote (.hex n)).next c =
            if c = ' ' || c = '\t' then some (.string quote .plain)
            else if isNewline c then some (Mode.lineEnd quote c)
            else Mode.inString quote c := if_neg (by simpa using hdigit)
        rw [hnone, List.length_nil, List.drop_zero]
        show Leads _ _ _ ((c :: t).drop
          (if c == ' ' || c == '\t' then 1 else newlineLength (c :: t)))
        by_cases hblank : c = ' ' ∨ c = '\t'
        · rw [if_pos (by simpa using hblank)] at hnext ⊢
          exact quiet hnext rfl stack t
        · rw [if_neg (by simpa using hblank)] at hnext ⊢
          by_cases hline : isNewline c = true
          · rw [if_pos hline] at hnext
            exact (quiet hnext rfl stack t).trans (lineEnd hline t)
          · rw [if_neg hline] at hnext
            rw [newlineLength_of_not (Bool.eq_false_iff.mpr hline)]
            refine alike rfl (fun _ _ => rfl) ?_
            rintro d s ⟨rfl, rfl⟩
            exact hnext

theorem escape_of_hex {c : Char} (h : isHex c = true) (t : List Char) :
    (Token.escape (c :: t)).2 = ((t.take 5).takeWhile isHex).length + 1 +
      escapeEnd (t.drop ((t.take 5).takeWhile isHex).length) := by
  have hdigits : ((c :: t).take 6).takeWhile isHex = c :: (t.take 5).takeWhile isHex := by
    rw [List.take_succ_cons, List.takeWhile_cons, if_pos h]
  simp only [Token.escape, hdigits, List.length_cons, List.drop_succ_cons]
  rfl

theorem escape_of_not_hex {c : Char} (h : isHex c = false) (t : List Char) :
    (Token.escape (c :: t)).2 = 1 := by
  have hdigits : ((c :: t).take 6).takeWhile isHex = [] := by
    rw [List.take_succ_cons, List.takeWhile_cons, h]
    rfl
  simp only [Token.escape, hdigits]

/-- An escape in a string, after its backslash. -/
theorem escaped (t : List Char) :
    Leads ⟨.string quote .escaped, stack⟩ t ⟨.string quote .plain, stack⟩
      (t.drop (if startsNewline t then newlineLength t
        else if t.isEmpty then 0 else (Token.escape t).2)) := by
  cases t with
  | nil => exact nil _ _
  | cons c t =>
      by_cases hline : isNewline c = true
      · have hnext : (Mode.string quote .escaped).next c = some (Mode.lineEnd quote c) :=
          if_pos hline
        have hstart : startsNewline (c :: t) = true := hline
        rw [if_pos hstart]
        exact (quiet hnext rfl stack t).trans (lineEnd hline t)
      · have hstart : startsNewline (c :: t) = false := Bool.eq_false_iff.mpr hline
        rw [hstart, if_neg Bool.false_ne_true, List.isEmpty_cons, if_neg Bool.false_ne_true]
        by_cases hhex : isHex c = true
        · have hnext : (Mode.string quote .escaped).next c = some (.string quote (.hex 1)) := by
            show (if isNewline c then _ else _) = _
            rw [if_neg hline, if_pos hhex]
          have hrest : Leads ⟨.string quote (.hex 1), stack⟩ t ⟨.string quote .plain, stack⟩ _ :=
            hex (by decide) t
          rw [List.drop_drop] at hrest
          rw [escape_of_hex hhex, Nat.add_right_comm, List.drop_succ_cons]
          exact (quiet hnext rfl stack t).trans hrest
        · have hnext : (Mode.string quote .escaped).next c = some (.string quote .plain) := by
            show (if isNewline c then _ else _) = _
            rw [if_neg hline, if_neg hhex]
          rw [escape_of_not_hex (Bool.eq_false_iff.mpr hhex)]
          exact quiet hnext rfl stack t

end Leads

/-- What the rest of a string does. -/
structure ActsInString (quote : Char) (scan : TokenKind × Nat) (t : List Char) : Prop where
  leads : ∀ {stack : List Bracket}, scan.1 = .other →
    Leads ⟨.string quote .plain, stack⟩ t ⟨.code .fresh, stack⟩ (t.drop scan.2)
  stops : ∀ {stack : List Bracket}, scan.1 ≠ .other →
    (Lexing.after ⟨.string quote .plain, stack⟩ t) = none
  kind : scan.1 = .other ∨ scan.1 = .malformed

/-- The length of what belongs to a character of a string besides itself. -/
def stringSkip (c : Char) (t : List Char) : Nat :=
  if c == '\\' then
    if startsNewline t then newlineLength t else if t.isEmpty then 0 else (Token.escape t).2
  else 0

theorem string_cons {quote c : Char} (hquote : c ≠ quote) (hline : isNewline c = false)
    (t : List Char) :
    Token.string quote (c :: t) =
      ((Token.string quote (t.drop (stringSkip c t))).1,
        (Token.string quote (t.drop (stringSkip c t))).2 + stringSkip c t + 1) := by
  rw [Token.string, if_neg (by simpa using hquote), hline, if_neg Bool.false_ne_true]
  rfl

/-- **The rest of a string.** -/
theorem acts_string {quote : Char} (hquote : isQuote quote = true) (t : List Char) :
    ActsInString quote (Token.string quote t) t := by
  induction hlen : t.length using Nat.strongRecOn generalizing t with
  | ind len ih =>
      subst hlen
      cases t with
      | nil =>
          rw [Token.string]
          exact ⟨fun _ => Leads.nil _ _, fun h => absurd rfl h, Or.inl rfl⟩
      | cons c t =>
          by_cases hclose : c = quote
          · subst hclose
            have hnext : (Mode.string c .plain).next c = some (.code .fresh) := if_pos rfl
            rw [Token.string, if_pos (beq_self_eq_true c)]
            exact ⟨fun _ => Leads.quiet hnext rfl _ t, fun h => absurd rfl h, Or.inl rfl⟩
          by_cases hline : isNewline c = true
          · have hnext : (Mode.string quote .plain).next c = none := by
              show Mode.inString quote c = none
              rw [Mode.inString, if_neg hclose, if_pos hline]
            rw [Token.string, if_neg (by simpa using hclose), if_pos hline]
            refine ⟨fun h => (by cases h), fun _ => ?_, Or.inr rfl⟩
            show (Lexing.next ⟨_, _⟩ c).bind _ = none
            rw [Lexing.next, hnext]
            rfl
          · have hline : isNewline c = false := Bool.eq_false_iff.mpr hline
            have hstep : ∀ stack, Leads ⟨.string quote .plain, stack⟩ (c :: t)
                ⟨.string quote .plain, stack⟩ (t.drop (stringSkip c t)) := by
              intro stack
              have hnext : (Mode.string quote .plain).next c =
                  some (if c = '\\' then .string quote .escaped else .string quote .plain) := by
                show Mode.inString quote c = _
                rw [Mode.inString, if_neg hclose, hline, if_neg Bool.false_ne_true]
                split <;> rfl
              rw [stringSkip]
              by_cases hescape : c = '\\'
              · rw [if_pos hescape] at hnext
                rw [if_pos (by simpa using hescape)]
                exact (Leads.quiet hnext rfl stack t).trans (Leads.escaped t)
              · rw [if_neg hescape] at hnext
                rw [if_neg (by simpa using hescape)]
                exact Leads.quiet hnext rfl stack t
            have hshorter : (t.drop (stringSkip c t)).length < (c :: t).length := by
              rw [List.length_drop, List.length_cons]
              omega
            have hrest := ih _ hshorter (t.drop (stringSkip c t)) rfl
            rw [string_cons hclose hline]
            refine ⟨fun {stack} hkind => ?_, fun hkind => (hstep _).stops (hrest.stops hkind),
              hrest.kind⟩
            have hlead := (hstep stack).trans (hrest.leads hkind)
            rw [List.drop_drop] at hlead
            show Leads _ _ _ ((c :: t).drop
              ((Token.string quote (t.drop (stringSkip c t))).2 + stringSkip c t + 1))
            rw [List.drop_succ_cons, Nat.add_comm]
            exact hlead

end PageLoom.Css
