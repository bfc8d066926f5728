import Mathlib.Data.String.Basic
import PageLoom.Proofs.Json.Tokens
import PageLoom.Proofs.Text.Numerals

/-!
# String literals — what they spell, and that it is shorter

    Between its quotes a string literal writes one character after another:
    as it is, by a short escape, by its code unit, or by a surrogate pair
    (`Spells`).  The texts that are read as a string are the literals with
    white space around them and no others (`read_eq_string_iff`).  No way of
    writing a character takes fewer bytes than the character itself, so
    what a literal spells is shorter than the literal by its quotes at least
    (`utf8ByteSize_of_read_string`).
-/

namespace PageLoom.Json

open Text String

/-! ## Literals -/

/-- A code unit written with four hexadecimal digits. -/
def IsUnit (digits : List Char) (n : Nat) : Prop :=
  digits.length = 4 ∧ hexadecimal? digits = some n

/-- **How a character is written** in a string literal. -/
inductive SpellsChar : List Char → Char → Prop
  /-- as it is -/
  | raw {c : Char} : c ≠ '"' → c ≠ '\\' → 0x20 ≤ c.toNat → SpellsChar [c] c
  | short {c d : Char} : shortEscape? c = some d → SpellsChar ['\\', c] d
  | unit {digits : List Char} {c : Char} :
      IsUnit digits c.toNat → SpellsChar ('\\' :: 'u' :: digits) c
  /-- the leading surrogate, then the trailing one -/
  | pair {leading trailing : List Char} {high low : Nat} {c : Char} :
      IsUnit leading high → IsUnit trailing low → 0xD800 ≤ high → high ≤ 0xDBFF →
      0xDC00 ≤ low → low ≤ 0xDFFF →
      c.toNat = 0x10000 + (high - 0xD800) * 0x400 + (low - 0xDC00) →
      SpellsChar ('\\' :: 'u' :: leading ++ '\\' :: 'u' :: trailing) c

/-- **What stands between the quotes of a literal**, and the text it spells. -/
inductive Spells : List Char → List Char → Prop
  | nil : Spells [] []
  | cons {written body s : List Char} {c : Char} :
      SpellsChar written c → Spells body s → Spells (written ++ body) (c :: s)

/-- **A text that is one string literal**, with white space around it. -/
structure IsLiteral (text s : List Char) : Prop where
  split : ∃ before body after, text = before ++ '"' :: body ++ '"' :: after ∧
    (∀ c ∈ before, isGap c = true) ∧ (∀ c ∈ after, isGap c = true) ∧ Spells body s

/-! ## Bytes -/

theorem length_le_utf8Len (cs : List Char) : cs.length ≤ utf8Len cs := by
  induction cs with
  | nil => exact Nat.le_refl 0
  | cons c cs ih =>
      have := c.utf8Size_pos
      rw [List.length_cons, utf8Len_cons]
      omega

/-- **No character is written in fewer bytes than it has.** -/
theorem SpellsChar.utf8Size_le {written : List Char} {c : Char} (h : SpellsChar written c) :
    c.utf8Size ≤ utf8Len written := by
  have hwritten := length_le_utf8Len written
  have hc := c.utf8Size_le_four
  cases h with
  | raw _ _ _ => exact Nat.le_of_eq (Nat.zero_add _).symm
  | @short e _ hshort =>
      -- the characters with short escapes have one byte
      rw [shortEscape?.eq_def] at hshort
      split at hshort <;> cases hshort <;> decide
  | unit hunit =>
      simp only [List.length_cons, hunit.1] at hwritten
      omega
  | pair hhigh _ _ _ _ _ _ =>
      simp only [List.length_cons, List.length_append, hhigh.1] at hwritten
      omega

theorem Spells.utf8Len_le {body s : List Char} (h : Spells body s) : utf8Len s ≤ utf8Len body := by
  induction h with
  | nil => exact Nat.le_refl 0
  | cons hchar _ ih =>
      have := hchar.utf8Size_le
      rw [utf8Len_cons, utf8Len_append]
      omega

/-- **A literal is longer than its text** by two bytes at least. -/
theorem IsLiteral.utf8Len_le {text s : List Char} (h : IsLiteral text s) :
    utf8Len s + 2 ≤ utf8Len text := by
  obtain ⟨before, body, after, rfl, -, -, hbody⟩ := h.split
  have := hbody.utf8Len_le
  have hquote : '"'.utf8Size = 1 := by decide
  simp only [utf8Len_append, utf8Len_cons, hquote]
  omega

/-! ## Reading a character -/

theorem exists_of_isUnit {digits : List Char} {n : Nat} (h : IsUnit digits n) :
    ∃ a b c d va vb vc vd, digits = [a, b, c, d] ∧ hexValue? a = some va ∧ hexValue? b = some vb ∧
      hexValue? c = some vc ∧ hexValue? d = some vd ∧
      n = (((0 * 16 + va) * 16 + vb) * 16 + vc) * 16 + vd := by
  obtain ⟨hlength, hvalue⟩ := h
  match digits, hlength with
  | [a, b, c, d], _ =>
      simp only [hexadecimal?, List.foldlM_cons, List.foldlM_nil, Option.bind_eq_bind,
        Option.bind_eq_some_iff, Option.map_eq_some_iff, Option.pure_def,
        Option.some.injEq] at hvalue
      obtain ⟨_, ⟨va, ha, rfl⟩, _, ⟨vb, hb, rfl⟩, _, ⟨vc, hc, rfl⟩, _, ⟨vd, hd, rfl⟩, rfl⟩ := hvalue
      exact ⟨a, b, c, d, va, vb, vc, vd, rfl, ha, hb, hc, hd, rfl⟩

theorem isUnit_of_values {a b c d : Char} {va vb vc vd : Nat} (ha : hexValue? a = some va)
    (hb : hexValue? b = some vb) (hc : hexValue? c = some vc) (hd : hexValue? d = some vd) :
    IsUnit [a, b, c, d] ((((0 * 16 + va) * 16 + vb) * 16 + vc) * 16 + vd) := by
  refine ⟨rfl, ?_⟩
  simp only [hexadecimal?, List.foldlM_cons, List.foldlM_nil, ha, hb, hc, hd, Option.map_some,
    Option.bind_eq_bind, Option.bind_some, Option.pure_def]

theorem toNat_ofNat {n : Nat} (h : n.isValidChar) : (Char.ofNat n).toNat = n := by
  rw [Char.ofNat, dif_pos h]
  rfl

theorem hexValue?_lt {c : Char} {v : Nat} (h : hexValue? c = some v) : v < 16 := by
  have hle : ∀ {a b : Char}, (a ≤ b) → a.toNat ≤ b.toNat := fun h => h
  rw [hexValue?] at h
  split at h
  · rename_i hdigit
    cases h
    exact Nat.lt_of_le_of_lt (digitValue_le_of_isDigit hdigit) (by decide)
  split at h
  · rename_i hletter
    rw [Bool.and_eq_true, decide_eq_true_eq, decide_eq_true_eq] at hletter
    cases h
    have : c.toNat ≤ 102 := hle hletter.2
    omega
  split at h
  · rename_i hletter
    rw [Bool.and_eq_true, decide_eq_true_eq, decide_eq_true_eq] at hletter
    cases h
    have : c.toNat ≤ 70 := hle hletter.2
    omega
  · cases h

theorem IsUnit.lt {digits : List Char} {n : Nat} (h : IsUnit digits n) : n < 0x10000 := by
  obtain ⟨a, b, c, d, va, vb, vc, vd, -, ha, hb, hc, hd, rfl⟩ := exists_of_isUnit h
  have ha := hexValue?_lt ha
  have hb := hexValue?_lt hb
  have hc := hexValue?_lt hc
  have hd := hexValue?_lt hd
  omega

/-- The state after the last digit of a code unit. -/
def Lexing.afterUnit (read : List Char) (n : Nat) : Option Lexing :=
  if 0xD800 ≤ n && n ≤ 0xDBFF then some (.surrogate read n)
  else if 0xDC00 ≤ n && n ≤ 0xDFFF then none
  else some (.text (Char.ofNat n :: read))

/-- The state after the last digit of a trailing surrogate. -/
def Lexing.afterPair (read : List Char) (high n : Nat) : Option Lexing :=
  if 0xDC00 ≤ n && n ≤ 0xDFFF then
    some (.text (Char.ofNat (0x10000 + (high - 0xD800) * 0x400 + (n - 0xDC00)) :: read))
  else none

/-- **States that read the digits of a code unit**: `unit left value` has `left`
    digits to read before the last one, and `after` is the state after that. -/
structure ReadsUnit (unit : Nat → Nat → Lexing) (after : Nat → Option Lexing) : Prop where
  stuck : ∀ left value, tokensFrom (unit left value) [] = none
  more : ∀ left value d, (unit (left + 1) value).step d =
    (hexValue? d).map fun v => ([], unit left (value * 16 + v))
  last : ∀ value d, (unit 0 value).step d =
    (hexValue? d).bind fun v => (after (value * 16 + v)).map ([], ·)

theorem readsUnit_unit (read : List Char) :
    ReadsUnit (Lexing.unit read) (Lexing.afterUnit read) where
  stuck := fun _ _ => rfl
  more := by
    intro left value d
    rw [Lexing.step]
    cases hexValue? d with
    | none => rfl
    | some v => rfl
  last := by
    intro value d
    rw [Lexing.step]
    cases hexValue? d with
    | none => rfl
    | some v =>
        rw [Option.bind_some, Lexing.afterUnit]
        show (if _ then _ else _) = _
        split
        · rfl
        · split <;> rfl

theorem readsUnit_pair (read : List Char) (high : Nat) :
    ReadsUnit (Lexing.surrogateUnit read high) (Lexing.afterPair read high) where
  stuck := fun _ _ => rfl
  more := by
    intro left value d
    rw [Lexing.step]
    cases hexValue? d with
    | none => rfl
    | some v => rfl
  last := by
    intro value d
    rw [Lexing.step]
    cases hexValue? d with
    | none => rfl
    | some v =>
        rw [Option.bind_some, Lexing.afterPair]
        show (if _ then _ else _) = _
        split <;> rfl

/-- A first character, and what it does. -/
theorem exists_of_tokensFrom_cons {state : Lexing} {c : Char} {cs : List Char} {ts : List Token}
    (h : tokensFrom state (c :: cs) = some ts) :
    ∃ first state' rest, state.step c = some (first, state') ∧
      tokensFrom state' cs = some rest ∧ ts = first ++ rest := by
  rw [tokensFrom] at h
  obtain ⟨⟨first, state'⟩, hstep, h⟩ := Option.bind_eq_some_iff.mp h
  obtain ⟨rest, hrest, h⟩ := Option.bind_eq_some_iff.mp h
  exact ⟨first, state', rest, hstep, hrest, (Option.some.inj h).symm⟩

namespace ReadsUnit

variable {unit : Nat → Nat → Lexing} {after : Nat → Option Lexing} (h : ReadsUnit unit after)

include h

/-- **The digits of a code unit** lead to the state after them. -/
theorem tokensFrom_append {digits : List Char} {n : Nat} (hdigits : IsUnit digits n)
    {state : Lexing} (hstate : after n = some state) (cs : List Char) :
    tokensFrom (unit 3 0) (digits ++ cs) = tokensFrom state cs := by
  obtain ⟨a, b, c, d, va, vb, vc, vd, rfl, ha, hb, hc, hd, rfl⟩ := exists_of_isUnit hdigits
  have hmore : ∀ {e : Char} {v : Nat} (left value : Nat), hexValue? e = some v → ∀ rest,
      tokensFrom (unit (left + 1) value) (e :: rest) =
        tokensFrom (unit left (value * 16 + v)) rest :=
    fun left value he rest => tokensFrom_within (by rw [h.more, he]; rfl) rest
  have hlast : (unit 0 (((0 * 16 + va) * 16 + vb) * 16 + vc)).step d = some ([], state) := by
    rw [h.last, hd, Option.bind_some, hstate]
    rfl
  calc
    _ = tokensFrom (unit 2 (0 * 16 + va)) ([b, c, d] ++ cs) := hmore 2 0 ha _
    _ = tokensFrom (unit 1 ((0 * 16 + va) * 16 + vb)) ([c, d] ++ cs) := hmore 1 _ hb _
    _ = tokensFrom (unit 0 (((0 * 16 + va) * 16 + vb) * 16 + vc)) ([d] ++ cs) := hmore 0 _ hc _
    _ = tokensFrom state cs := tokensFrom_within hlast cs

/-- A text that goes on with a digit, more to come. -/
theorem exists_digit {left value : Nat} {cs : List Char} {ts : List Token}
    (hread : tokensFrom (unit (left + 1) value) cs = some ts) :
    ∃ d v rest, cs = d :: rest ∧ hexValue? d = some v ∧
      tokensFrom (unit left (value * 16 + v)) rest = some ts := by
  cases cs with
  | nil =>
      rw [h.stuck] at hread
      cases hread
  | cons d rest =>
      obtain ⟨first, state, later, hstep, hlater, rfl⟩ := exists_of_tokensFrom_cons hread
      rw [h.more, Option.map_eq_some_iff] at hstep
      obtain ⟨v, hv, hpair⟩ := hstep
      cases hpair
      exact ⟨d, v, rest, rfl, hv, hlater⟩

/-- A text that goes on with the last digit. -/
theorem exists_lastDigit {value : Nat} {cs : List Char} {ts : List Token}
    (hread : tokensFrom (unit 0 value) cs = some ts) :
    ∃ d v rest state, cs = d :: rest ∧ hexValue? d = some v ∧
      after (value * 16 + v) = some state ∧ tokensFrom state rest = some ts := by
  cases cs with
  | nil =>
      rw [h.stuck] at hread
      cases hread
  | cons d rest =>
      obtain ⟨first, state, later, hstep, hlater, rfl⟩ := exists_of_tokensFrom_cons hread
      rw [h.last, Option.bind_eq_some_iff] at hstep
      obtain ⟨v, hv, hstep⟩ := hstep
      obtain ⟨state', hstate, hpair⟩ := Option.map_eq_some_iff.mp hstep
      cases hpair
      exact ⟨d, v, rest, state, rfl, hv, hstate, hlater⟩

/-- **Whatever is read from there** starts with a code unit. -/
theorem exists_of_tokensFrom {cs : List Char} {ts : List Token}
    (hread : tokensFrom (unit 3 0) cs = some ts) :
    ∃ digits n rest state, cs = digits ++ rest ∧ IsUnit digits n ∧ after n = some state ∧
      tokensFrom state rest = some ts := by
  obtain ⟨a, va, _, rfl, ha, hread⟩ := h.exists_digit hread
  obtain ⟨b, vb, _, rfl, hb, hread⟩ := h.exists_digit hread
  obtain ⟨c, vc, _, rfl, hc, hread⟩ := h.exists_digit hread
  obtain ⟨d, vd, rest, state, rfl, hd, hstate, hread⟩ := h.exists_lastDigit hread
  exact ⟨[a, b, c, d], _, rest, state, rfl, isUnit_of_values ha hb hc hd, hstate, hread⟩

end ReadsUnit

/-! ## Reading a literal -/

/-- **A written character** is read as the character. -/
theorem SpellsChar.tokensFrom_append {written : List Char} {c : Char} (h : SpellsChar written c)
    (read cs : List Char) :
    tokensFrom (.text read) (written ++ cs) = tokensFrom (.text (c :: read)) cs := by
  have hunit : ∀ rest, tokensFrom (.text read) ('\\' :: 'u' :: rest) =
      tokensFrom (.unit read 3 0) rest := fun rest =>
    (tokensFrom_within rfl _).trans (tokensFrom_within rfl _)
  cases h with
  | raw hquote hbackslash hcontrol =>
      refine tokensFrom_within ?_ cs
      rw [Lexing.step, if_neg (by rwa [beq_iff_eq]), if_neg (by rwa [beq_iff_eq]),
        if_neg (Nat.not_lt.mpr hcontrol)]
  | @short e _ hshort =>
      have hu : e ≠ 'u' := by
        rintro rfl
        cases hshort
      have hescape : (Lexing.escape read).step e = some ([], .text (c :: read)) := by
        rw [Lexing.step, if_neg (by rwa [beq_iff_eq]), hshort]
        rfl
      exact (tokensFrom_within rfl _).trans (tokensFrom_within hescape cs)
  | @unit digits _ hdigits =>
      -- the code of a character is no surrogate
      have hvalid : c.toNat < 0xD800 ∨ 0xDFFF < c.toNat := c.valid.imp id And.left
      have hstate : Lexing.afterUnit read c.toNat = some (.text (c :: read)) := by
        rw [Lexing.afterUnit, if_neg (by simp only [Bool.and_eq_true, decide_eq_true_eq]; omega),
          if_neg (by simp only [Bool.and_eq_true, decide_eq_true_eq]; omega), Char.ofNat_toNat]
      rw [List.cons_append, List.cons_append, hunit]
      exact (readsUnit_unit read).tokensFrom_append hdigits hstate cs
  | @pair leading trailing high low _ hhigh hlow h1 h2 h3 h4 hc =>
      have hlead : Lexing.afterUnit read high = some (.surrogate read high) := by
        rw [Lexing.afterUnit, if_pos (by simp only [Bool.and_eq_true, decide_eq_true_eq]; omega)]
      have htrail : Lexing.afterPair read high low = some (.text (c :: read)) := by
        rw [Lexing.afterPair, if_pos (by simp only [Bool.and_eq_true, decide_eq_true_eq]; omega),
          ← hc, Char.ofNat_toNat]
      have hmark : tokensFrom (.surrogate read high) ('\\' :: 'u' :: trailing ++ cs) =
          tokensFrom (.surrogateUnit read high 3 0) (trailing ++ cs) :=
        (tokensFrom_within rfl _).trans (tokensFrom_within rfl _)
      calc
        _ = tokensFrom (.unit read 3 0) (leading ++ ('\\' :: 'u' :: trailing ++ cs)) := by
          rw [List.append_assoc, ← hunit]
          rfl
        _ = tokensFrom (.surrogateUnit read high 3 0) (trailing ++ cs) := by
          rw [(readsUnit_unit read).tokensFrom_append hhigh hlead, hmark]
        _ = tokensFrom (.text (c :: read)) cs :=
          (readsUnit_pair read high).tokensFrom_append hlow htrail cs

theorem Spells.tokensFrom_append {body s : List Char} (h : Spells body s) (read cs : List Char) :
    tokensFrom (.text read) (body ++ cs) = tokensFrom (.text (s.reverse ++ read)) cs := by
  induction h generalizing read with
  | nil => rfl
  | cons hchar _ ih =>
      rw [List.append_assoc, hchar.tokensFrom_append, ih, List.reverse_cons, List.append_assoc]
      rfl

/-- After a leading surrogate a trailing one comes. -/
theorem exists_of_tokensFrom_surrogate {read cs : List Char} {high : Nat} {ts : List Token}
    (h : tokensFrom (.surrogate read high) cs = some ts) :
    ∃ trailing low rest, cs = '\\' :: 'u' :: trailing ++ rest ∧ IsUnit trailing low ∧
      (0xDC00 ≤ low ∧ low ≤ 0xDFFF) ∧
      tokensFrom (.text (.ofNat (0x10000 + (high - 0xD800) * 0x400 + (low - 0xDC00)) :: read))
        rest = some ts := by
  obtain ⟨mark, cs, rfl⟩ : ∃ mark cs', cs = mark :: cs' := by
    cases cs with
    | nil => cases h
    | cons mark cs => exact ⟨mark, cs, rfl⟩
  obtain ⟨first, state, later, hstep, h, rfl⟩ := exists_of_tokensFrom_cons h
  rw [Lexing.step] at hstep
  split at hstep
  case isFalse => cases hstep
  rename_i hmark
  obtain rfl := beq_iff_eq.mp hmark
  cases hstep
  obtain ⟨u, cs, rfl⟩ : ∃ u cs', cs = u :: cs' := by
    cases cs with
    | nil => cases h
    | cons u cs => exact ⟨u, cs, rfl⟩
  obtain ⟨first, state, later, hstep, h, rfl⟩ := exists_of_tokensFrom_cons h
  rw [Lexing.step] at hstep
  split at hstep
  case isFalse => cases hstep
  rename_i hu
  obtain rfl := beq_iff_eq.mp hu
  cases hstep
  obtain ⟨trailing, low, rest, state, rfl, htrailing, hstate, h⟩ :=
    (readsUnit_pair read high).exists_of_tokensFrom h
  rw [Lexing.afterPair] at hstate
  split at hstate
  · rename_i hlow
    rw [Bool.and_eq_true, decide_eq_true_eq, decide_eq_true_eq] at hlow
    cases hstate
    exact ⟨trailing, low, rest, rfl, htrailing, hlow, h⟩
  · cases hstate

/-- **Whatever is read after a backslash** starts with the rest of a character. -/
theorem exists_of_tokensFrom_escape {read cs : List Char} {ts : List Token}
    (h : tokensFrom (.escape read) cs = some ts) :
    ∃ written c rest, cs = written ++ rest ∧ SpellsChar ('\\' :: written) c ∧
      tokensFrom (.text (c :: read)) rest = some ts := by
  cases cs with
  | nil => cases h
  | cons e rest =>
      obtain ⟨first, state, later, hstep, hrest, rfl⟩ := exists_of_tokensFrom_cons h
      rw [Lexing.step] at hstep
      split at hstep
      · rename_i hu
        obtain rfl := beq_iff_eq.mp hu
        cases hstep
        obtain ⟨digits, n, rest, state, rfl, hdigits, hstate, hrest⟩ :=
          (readsUnit_unit read).exists_of_tokensFrom hrest
        rw [Lexing.afterUnit] at hstate
        split at hstate
        · -- a leading surrogate: a trailing one comes next
          rename_i hhigh
          simp only [Bool.and_eq_true, decide_eq_true_eq] at hhigh
          cases hstate
          obtain ⟨trailing, low, rest, rfl, htrailing, hlow, hrest⟩ :=
            exists_of_tokensFrom_surrogate hrest
          have hvalid : (0x10000 + (n - 0xD800) * 0x400 + (low - 0xDC00)).isValidChar :=
            Or.inr (by omega)
          refine ⟨_, _, rest, ?_, .pair hdigits htrailing hhigh.1 hhigh.2 hlow.1 hlow.2 ?_, hrest⟩
          · exact congrArg ('u' :: ·) (List.append_assoc ..).symm
          · exact toNat_ofNat hvalid
        split at hstate
        · cases hstate
        · rename_i hhigh hlow
          simp only [Bool.and_eq_true, decide_eq_true_eq] at hhigh hlow
          cases hstate
          have hlt := hdigits.lt
          have hvalid : n.isValidChar := by
            show _ ∨ _
            omega
          refine ⟨'u' :: digits, _, rest, rfl, .unit ?_, hrest⟩
          rwa [toNat_ofNat hvalid]
      · obtain ⟨c, hshort, hpair⟩ := Option.map_eq_some_iff.mp hstep
        cases hpair
        exact ⟨[e], c, rest, rfl, .short hshort, hrest⟩

/-- **Whatever is read inside a literal** is the rest of the literal, up to its
    closing quote. -/
theorem exists_of_tokensFrom_text {read cs : List Char} {ts : List Token}
    (h : tokensFrom (.text read) cs = some ts) :
    ∃ body s after later, cs = body ++ '"' :: after ∧ Spells body s ∧
      tokensFrom .between after = some later ∧
      ts = .scalar (.string (String.ofList (read.reverse ++ s))) :: later := by
  induction hlen : cs.length using Nat.strongRecOn generalizing read cs ts with
  | ind len ih =>
      subst hlen
      -- one character more, and the rest of the literal after it
      have hchar : ∀ {written rest : List Char} {c : Char}, SpellsChar written c →
          cs = written ++ rest → rest.length < cs.length →
          tokensFrom (.text (c :: read)) rest = some ts →
          ∃ body s after later, cs = body ++ '"' :: after ∧ Spells body s ∧
            tokensFrom .between after = some later ∧
            ts = .scalar (.string (String.ofList (read.reverse ++ s))) :: later := by
        rintro written rest c hspells rfl hlt hrest
        obtain ⟨body, s, after, later, rfl, hbody, hafter, rfl⟩ := ih _ hlt hrest rfl
        refine ⟨written ++ body, c :: s, after, later, by rw [List.append_assoc],
          .cons hspells hbody, hafter, ?_⟩
        rw [List.reverse_cons, List.append_assoc]
        rfl
      cases cs with
      | nil => cases h
      | cons c rest =>
          have hlt : rest.length < (c :: rest).length := Nat.lt_succ_self _
          obtain ⟨first, state, later, hstep, hrest, rfl⟩ := exists_of_tokensFrom_cons h
          rw [Lexing.step] at hstep
          split at hstep
          · -- the closing quote
            rename_i hquote
            obtain rfl := beq_iff_eq.mp hquote
            cases hstep
            refine ⟨[], [], rest, later, rfl, .nil, hrest, ?_⟩
            rw [List.append_nil]
            rfl
          split at hstep
          · rename_i hbackslash
            obtain rfl := beq_iff_eq.mp hbackslash
            cases hstep
            obtain ⟨written, c, after, rfl, hspells, hafter⟩ := exists_of_tokensFrom_escape hrest
            refine hchar hspells rfl ?_ hafter
            rw [List.length_append] at hlt
            exact Nat.lt_of_le_of_lt (Nat.le_add_left ..) hlt
          split at hstep
          · cases hstep
          · rename_i hquote hbackslash hcontrol
            rw [beq_iff_eq] at hquote hbackslash
            cases hstep
            exact hchar (.raw hquote hbackslash (Nat.not_lt.mp hcontrol)) rfl hlt hrest

/-! ## Reading a text -/

/-- **What a character between tokens does**: it is white space, or starts a
    literal or a word, or is a token on its own. -/
theorem step_between_cases {c : Char} {first : List Token} {state : Lexing}
    (h : Lexing.between.step c = some (first, state)) :
    (isGap c = true ∧ first = [] ∧ state = .between) ∨
    (c = '"' ∧ first = [] ∧ state = .text []) ∨
    (first = [] ∧ state = .word [c]) ∨
    (∃ mark, first = [mark] ∧ state = .between ∧ ∀ value, mark ≠ .scalar value) := by
  replace h : Lexing.step.between c = some (first, state) := h
  rw [Lexing.step.between.eq_def] at h
  split at h
  · rename_i hgap
    cases h
    exact .inl ⟨hgap, rfl, rfl⟩
  split at h
  · rename_i hquote
    cases h
    exact .inr (.inl ⟨beq_iff_eq.mp hquote, rfl, rfl⟩)
  split at h
  · cases h
    exact .inr (.inr (.inl ⟨rfl, rfl⟩))
  · refine .inr (.inr (.inr ?_))
    split at h <;> cases h <;> exact ⟨_, rfl, rfl, fun _ hmark => Token.noConfusion hmark⟩

theorem ne_string_of_wordToken {word : List Char} {token : Token}
    (h : wordToken word = some token) (s : String) : token ≠ .scalar (.string s) := by
  rintro rfl
  rw [wordToken.eq_def] at h
  split at h
  case h_4 =>
    obtain ⟨n, -, hn⟩ := Option.map_eq_some_iff.mp h
    cases hn
  all_goals cases h

/-- **A word comes first**, and is no string. -/
theorem exists_of_tokensFrom_word {read cs : List Char} {ts : List Token}
    (h : tokensFrom (.word read) cs = some ts) :
    ∃ word later, ts = word :: later ∧ ∀ s, word ≠ .scalar (.string s) := by
  induction cs generalizing read ts with
  | nil =>
      obtain ⟨token, htoken, rfl⟩ := Option.map_eq_some_iff.mp h
      exact ⟨token, [], rfl, ne_string_of_wordToken htoken⟩
  | cons c cs ih =>
      obtain ⟨first, state, later, hstep, hlater, rfl⟩ := exists_of_tokensFrom_cons h
      rw [Lexing.step] at hstep
      split at hstep
      · cases hstep
        exact ih hlater
      · obtain ⟨token, htoken, hstep⟩ := Option.bind_eq_some_iff.mp hstep
        obtain ⟨⟨tokens, state'⟩, -, hpair⟩ := Option.bind_eq_some_iff.mp hstep
        cases hpair
        exact ⟨token, tokens ++ later, rfl, ne_string_of_wordToken htoken⟩

/-- **A text without tokens** is white space. -/
theorem tokensFrom_between_eq_nil_iff {cs : List Char} :
    tokensFrom .between cs = some [] ↔ ∀ c ∈ cs, isGap c = true := by
  induction cs with
  | nil => exact iff_of_true rfl (List.forall_mem_nil _)
  | cons c cs ih =>
      rw [List.forall_mem_cons, ← ih]
      constructor
      · intro h
        obtain ⟨first, state, later, hstep, hlater, hts⟩ := exists_of_tokensFrom_cons h
        obtain ⟨rfl, rfl⟩ := List.append_eq_nil_iff.mp hts.symm
        rcases step_between_cases hstep with ⟨hgap, -, rfl⟩ | ⟨-, -, rfl⟩ | ⟨-, rfl⟩ |
          ⟨mark, hmark, -, -⟩
        · exact ⟨hgap, hlater⟩
        · obtain ⟨_, _, _, _, -, -, -, hnil⟩ := exists_of_tokensFrom_text hlater
          cases hnil
        · obtain ⟨_, _, hnil, -⟩ := exists_of_tokensFrom_word hlater
          cases hnil
        · cases hmark
      · rintro ⟨hgap, h⟩
        have hstep : Lexing.between.step c = some ([], .between) := if_pos hgap
        rw [tokensFrom_within hstep, h]

theorem tokensFrom_between_append {before : List Char} (h : ∀ c ∈ before, isGap c = true)
    (cs : List Char) : tokensFrom .between (before ++ cs) = tokensFrom .between cs := by
  induction before with
  | nil => rfl
  | cons c before ih =>
      obtain ⟨hgap, hbefore⟩ := List.forall_mem_cons.mp h
      have hstep : Lexing.between.step c = some ([], .between) := if_pos hgap
      rw [List.cons_append, tokensFrom_within hstep, ih hbefore]

/-- **A text whose one token is a string** is a literal. -/
theorem tokensFrom_between_eq_string_iff {cs s : List Char} :
    tokensFrom .between cs = some [.scalar (.string (.ofList s))] ↔ IsLiteral cs s := by
  constructor
  · intro h
    induction cs with
    | nil => cases h
    | cons c cs ih =>
        obtain ⟨first, state, later, hstep, hlater, hts⟩ := exists_of_tokensFrom_cons h
        rcases step_between_cases hstep with ⟨hgap, rfl, rfl⟩ | ⟨rfl, rfl, rfl⟩ | ⟨rfl, rfl⟩ |
          ⟨mark, rfl, -, hmark⟩
        · obtain rfl := hts
          obtain ⟨before, body, after, rfl, hbefore, hafter, hbody⟩ := (ih hlater).split
          exact ⟨c :: before, body, after, rfl, List.forall_mem_cons.mpr ⟨hgap, hbefore⟩,
            hafter, hbody⟩
        · obtain rfl := hts
          obtain ⟨body, s', after, later, rfl, hbody, hafter, hone⟩ :=
            exists_of_tokensFrom_text hlater
          simp only [List.reverse_nil, List.nil_append, List.cons.injEq, Token.scalar.injEq,
            string.injEq, ofList_inj] at hone
          obtain ⟨rfl, rfl⟩ := hone
          exact ⟨[], body, after, rfl, List.forall_mem_nil _,
            tokensFrom_between_eq_nil_iff.mp hafter, hbody⟩
        · obtain rfl := hts
          obtain ⟨word, rest, hword, hne⟩ := exists_of_tokensFrom_word hlater
          exact absurd (List.cons.inj hword).1.symm (hne _)
        · exact absurd (List.cons.inj hts).1.symm (hmark _)
  · rintro ⟨before, body, after, rfl, hbefore, hafter, hbody⟩
    rw [List.append_assoc, tokensFrom_between_append hbefore]
    have hclose : (Lexing.text (s.reverse ++ [])).step '"' =
        some ([.scalar (.string (.ofList s))], .between) := by
      rw [Lexing.step, if_pos (by decide), List.append_nil, List.reverse_reverse]
    calc
      _ = tokensFrom (.text []) (body ++ '"' :: after) := tokensFrom_within rfl _
      _ = tokensFrom (.text (s.reverse ++ [])) ('"' :: after) := hbody.tokensFrom_append [] _
      _ = some [.scalar (.string (.ofList s))] :=
        tokensFrom_step hclose (tokensFrom_between_eq_nil_iff.mpr hafter)

/-- **The texts read as a string** are its literals. -/
theorem read_eq_string_iff {text s : String} :
    read text = some (.string s) ↔ IsLiteral text.toList s.toList := by
  rw [← tokensFrom_between_eq_string_iff, String.ofList_toList, read, readChars]
  constructor
  · intro h
    obtain ⟨tokens, htokens, hvalue⟩ := Option.bind_eq_some_iff.mp h
    rw [htokens, tokens_of_string hvalue]
  · intro h
    rw [h]
    rfl

/-- **A string is shorter than its literal** by two bytes at least. -/
theorem utf8ByteSize_of_read_string {text s : String} (h : read text = some (.string s)) :
    s.utf8ByteSize + 2 ≤ text.utf8ByteSize := by
  have hlen := (read_eq_string_iff.mp h).utf8Len_le
  rwa [String.utf8Len_toList, String.utf8Len_toList] at hlen

end PageLoom.Json
