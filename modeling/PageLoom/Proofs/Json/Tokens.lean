import PageLoom.Json.Printer
import PageLoom.Json.Reader
import PageLoom.Proofs.Json.Ordered

/-!
# Printed characters — the tokens that they are read as

    A text keeps a value if its members stand in order, its numbers read back
    from their own texts and its containers nest no deeper than there is room
    (`Json.Kept`).  The characters of such a value give its tokens, with
    whatever comes after (`tokensFrom_chars`): a string up to its closing quote
    (`tokensFrom_quote`), a word or a numeral up to a character that cannot go
    on with it (`Stops`).
-/

namespace PageLoom.Json

/-- **A value that its text keeps**, with room for so many containers around each
    other. -/
inductive Kept : Nat → Json → Prop
  | null {room : Nat} : Kept room .null
  | bool {room : Nat} (b : Bool) : Kept room (.bool b)
  | number {room : Nat} {n : Number} :
      Numeral.read n.text.toList = some n → Kept room (.number n)
  | string {room : Nat} (s : String) : Kept room (.string s)
  | array {room : Nat} {items : List Json} :
      (∀ item ∈ items, Kept room item) → Kept (room + 1) (.array items)
  | object {room : Nat} {members : List (String × Json)} :
      Assoc.Sorted members → (∀ member ∈ members, Kept room member.2) →
      Kept (room + 1) (.object members)

theorem Kept.ordered {room : Nat} {value : Json} (kept : value.Kept room) : value.Ordered := by
  induction kept with
  | null => exact .null
  | bool b => exact .bool b
  | number _ => exact .number _
  | string s => exact .string s
  | array _ ih => exact .array ih
  | object sorted _ ih => exact .object sorted ih

/-! ## Kept values, computed -/

mutual
/-- Whether a text keeps a value. -/
def isKept : Nat → Json → Bool
  | _, .null | _, .bool _ | _, .string _ => true
  | _, .number n => Numeral.read n.text.toList == some n
  | room + 1, .array items => isKeptItems room items
  | room + 1, .object members => decide (Assoc.Sorted members) && isKeptMembers room members
  | 0, .array _ | 0, .object _ => false

/-- Whether a text keeps all items. -/
def isKeptItems (room : Nat) : List Json → Bool
  | [] => true
  | item :: rest => isKept room item && isKeptItems room rest

/-- Whether a text keeps the values of all members. -/
def isKeptMembers (room : Nat) : List (String × Json) → Bool
  | [] => true
  | (_, value) :: rest => isKept room value && isKeptMembers room rest
end

theorem isKeptItems_iff {room : Nat} {items : List Json} :
    isKeptItems room items = true ↔ ∀ item ∈ items, isKept room item = true := by
  induction items with
  | nil => exact iff_of_true rfl (List.forall_mem_nil _)
  | cons item rest ih => rw [isKeptItems, Bool.and_eq_true, ih, List.forall_mem_cons]

theorem isKeptMembers_iff {room : Nat} {members : List (String × Json)} :
    isKeptMembers room members = true ↔ ∀ member ∈ members, isKept room member.2 = true := by
  induction members with
  | nil => exact iff_of_true rfl (List.forall_mem_nil _)
  | cons member rest ih => rw [isKeptMembers, Bool.and_eq_true, ih, List.forall_mem_cons]

/-- The test for values that printing keeps is right. -/
theorem Kept.of_isKept : ∀ {room : Nat} {value : Json}, value.isKept room = true → value.Kept room
  | _, .null, _ => .null
  | _, .bool b, _ => .bool b
  | _, .string s, _ => .string s
  | _, .number n, h => by
      rw [Json.isKept] at h
      exact .number (beq_iff_eq.mp h)
  | room + 1, .array items, h => by
      rw [Json.isKept, isKeptItems_iff] at h
      exact .array fun item hitem => of_isKept (h item hitem)
  | room + 1, .object members, h => by
      rw [Json.isKept, Bool.and_eq_true, isKeptMembers_iff] at h
      exact .object (of_decide_eq_true h.1) fun member hmember => of_isKept (h.2 member hmember)

theorem Kept.isKept {room : Nat} {value : Json} (kept : value.Kept room) :
    value.isKept room = true := by
  induction kept with
  | null => rw [Json.isKept]
  | bool b => rw [Json.isKept]
  | string s => rw [Json.isKept]
  | number hread => rw [Json.isKept, hread, beq_self_eq_true]
  | array _ ih => rw [Json.isKept, isKeptItems_iff.mpr ih]
  | object sorted _ ih =>
      rw [Json.isKept, isKeptMembers_iff.mpr ih, decide_eq_true sorted, Bool.and_self]

instance (room : Nat) (value : Json) : Decidable (value.Kept room) :=
  decidable_of_iff (value.isKept room = true) ⟨Kept.of_isKept, Kept.isKept⟩

/-! ## Tokens of a value -/

mutual
/-- The tokens of a value. -/
def tokens : Json → List Token
  | .array items => .openArray :: itemTokens items ++ [.closeArray]
  | .object members => .openObject :: memberTokens members ++ [.closeObject]
  | value => [.scalar value]

/-- The tokens of items, with commas between them. -/
def itemTokens : List Json → List Token
  | [] => []
  | [item] => tokens item
  | item :: rest => tokens item ++ .comma :: itemTokens rest

/-- The tokens of members, with commas between them. -/
def memberTokens : List (String × Json) → List Token
  | [] => []
  | [(key, value)] => .scalar (.string key) :: .colon :: tokens value
  | (key, value) :: rest =>
      .scalar (.string key) :: .colon :: tokens value ++ .comma :: memberTokens rest
end

theorem itemChars_cons_cons (item next : Json) (rest : List Json) :
    itemChars (item :: next :: rest) = chars item ++ ',' :: itemChars (next :: rest) := rfl

theorem itemTokens_cons_cons (item next : Json) (rest : List Json) :
    itemTokens (item :: next :: rest) = tokens item ++ .comma :: itemTokens (next :: rest) := rfl

theorem memberChars_cons_cons (key : String) (value : Json) (next : String × Json)
    (rest : List (String × Json)) :
    memberChars ((key, value) :: next :: rest) =
      quote key ++ ':' :: chars value ++ ',' :: memberChars (next :: rest) := rfl

theorem memberTokens_cons_cons (key : String) (value : Json) (next : String × Json)
    (rest : List (String × Json)) :
    memberTokens ((key, value) :: next :: rest) =
      .scalar (.string key) :: .colon :: tokens value ++ .comma :: memberTokens (next :: rest) :=
  rfl

/-! ## From characters to tokens -/

/-- One character, and what the rest gives. -/
theorem tokensFrom_step {state state' : Lexing} {c : Char} {cs : List Char}
    {first rest : List Token} (hstep : state.step c = some (first, state'))
    (h : tokensFrom state' cs = some rest) : tokensFrom state (c :: cs) = some (first ++ rest) := by
  rw [tokensFrom, hstep]
  show (tokensFrom state' cs).bind _ = _
  rw [h]
  rfl

/-- A character inside a token. -/
theorem tokensFrom_within {state state' : Lexing} {c : Char}
    (hstep : state.step c = some ([], state')) (cs : List Char) :
    tokensFrom state (c :: cs) = tokensFrom state' cs := by
  rw [tokensFrom, hstep]
  show (tokensFrom state' cs).bind _ = _
  cases tokensFrom state' cs with
  | none => rfl
  | some rest => rfl

/-- **A text that ends a numeral**: nothing, or a character that is no part of
    one. -/
def Stops (rest : List Char) : Prop :=
  ∀ c ∈ rest.head?, isWordPart c = false

theorem stops_cons {c : Char} (h : isWordPart c = false) (rest : List Char) :
    Stops (c :: rest) := by
  intro d hd
  rw [List.head?_cons, Option.mem_some_iff] at hd
  exact hd ▸ h

/-! ### Words -/

theorem step_between_wordPart {c : Char} (h : isWordPart c = true) :
    Lexing.between.step c = some ([], .word [c]) := by
  have hne : ∀ d, isWordPart d = false → ¬(c == d) = true := by
    intro d hd heq
    rw [← beq_iff_eq.mp heq, h] at hd
    cases hd
  have hgap : ¬isGap c = true := by
    simp only [isGap, Bool.or_eq_true, not_or]
    exact ⟨⟨⟨hne ' ' (by decide), hne '\n' (by decide)⟩, hne '\t' (by decide)⟩,
      hne '\r' (by decide)⟩
  show Lexing.step.between c = _
  rw [Lexing.step.between.eq_def, if_neg hgap, if_neg (hne '"' (by decide)), if_pos h]

/-- A word up to its end is one token. -/
theorem tokensFrom_word {word rest : List Char} {read : List Char} {token : Token}
    {ts : List Token} (hword : ∀ c ∈ word, isWordPart c = true)
    (htoken : wordToken (read.reverse ++ word) = some token) (stops : Stops rest)
    (h : tokensFrom .between rest = some ts) :
    tokensFrom (.word read) (word ++ rest) = some (token :: ts) := by
  induction word generalizing read with
  | nil =>
      rw [List.append_nil] at htoken
      cases rest with
      | nil =>
          cases h
          rw [List.nil_append, tokensFrom, htoken]
          rfl
      | cons c cs =>
          -- the next character ends the word and is read as one between tokens
          have hc : isWordPart c = false := stops c rfl
          rw [tokensFrom] at h
          obtain ⟨⟨first, state⟩, hstep, h⟩ := Option.bind_eq_some_iff.mp h
          obtain ⟨later, hlater, h⟩ := Option.bind_eq_some_iff.mp h
          cases h
          have hword : (Lexing.word read).step c = some (token :: first, state) := by
            rw [Lexing.step, if_neg (by rw [hc]; exact Bool.false_ne_true), htoken]
            show (Lexing.step.between c).bind _ = _
            rw [show Lexing.step.between c = some (first, state) from hstep]
            rfl
          exact tokensFrom_step hword hlater
  | cons c word ih =>
      obtain ⟨hc, hrest⟩ := List.forall_mem_cons.mp hword
      have hstep : (Lexing.word read).step c = some ([], .word (c :: read)) := if_pos hc
      rw [List.cons_append, tokensFrom_within hstep]
      refine ih hrest ?_
      rw [List.reverse_cons, List.append_assoc]
      exact htoken

/-- **A word** up to what ends it. -/
theorem tokensFrom_between_word {word rest : List Char} {token : Token} {ts : List Token}
    (hne : word ≠ []) (hword : ∀ c ∈ word, isWordPart c = true)
    (htoken : wordToken word = some token) (stops : Stops rest)
    (h : tokensFrom .between rest = some ts) :
    tokensFrom .between (word ++ rest) = some (token :: ts) := by
  cases word with
  | nil => exact absurd rfl hne
  | cons c word =>
      obtain ⟨hc, hrest⟩ := List.forall_mem_cons.mp hword
      rw [List.cons_append, tokensFrom_within (step_between_wordPart hc)]
      exact tokensFrom_word hrest htoken stops h

/-! ### Numerals -/

theorem isWordPart_of_isDigit {c : Char} (h : c.isDigit = true) : isWordPart c = true := by
  rw [isWordPart, Char.isAlphanum, h, Bool.or_true, Bool.true_or, Bool.true_or, Bool.true_or]

theorem isWordPart_of_decimal? {digits : List Char} {n : Nat}
    (h : Text.decimal? digits = some n) : ∀ c ∈ digits, isWordPart c = true := by
  rw [Text.decimal?] at h
  split at h
  · cases h
  · rename_i hnot
    simp only [Bool.or_eq_true, Bool.not_eq_true', not_or, Bool.not_eq_false,
      List.all_eq_true] at hnot
    exact fun c hc => isWordPart_of_isDigit (hnot.2 c hc)

theorem isWordPart_of_exponent? {cs : List Char} {power : Int}
    (h : Numeral.exponent? cs = some power) : ∀ c ∈ cs, isWordPart c = true := by
  obtain ⟨n, hn, -⟩ := Option.map_eq_some_iff.mp h
  obtain ⟨m, hm, -⟩ := Option.bind_eq_some_iff.mp hn
  have hdigits := isWordPart_of_decimal? hm
  split at hdigits
  · exact List.forall_mem_cons.mpr ⟨rfl, hdigits⟩
  · exact List.forall_mem_cons.mpr ⟨rfl, hdigits⟩
  · exact hdigits

/-- Digits, and what follows them. -/
theorem isWordPart_of_digits {cs : List Char}
    (h : ∀ c ∈ cs.dropWhile Char.isDigit, isWordPart c = true) : ∀ c ∈ cs, isWordPart c = true := by
  rw [← List.takeWhile_append_dropWhile (p := Char.isDigit) (l := cs), List.forall_mem_append]
  exact ⟨fun c hc => isWordPart_of_isDigit (List.all_eq_true.mp List.all_takeWhile c hc), h⟩

/-- The exponent, with its letter. -/
private theorem isWordPart_of_exponentPart {fraction : Option (List Char)} {rest : List Char}
    {suffix : Option (List Char) × Option Int}
    (h : (match rest with
      | [] => some (fraction, none)
      | c :: rest =>
          if c == 'e' || c == 'E' then
            (Numeral.exponent? rest).bind fun power => some (fraction, some power)
          else none) = some suffix) : ∀ c ∈ rest, isWordPart c = true := by
  cases rest with
  | nil => exact List.forall_mem_nil _
  | cons c rest =>
      obtain ⟨hletter, h⟩ := Option.ite_none_right_eq_some.mp h
      obtain ⟨power, hpower, -⟩ := Option.bind_eq_some_iff.mp h
      refine List.forall_mem_cons.mpr ⟨?_, isWordPart_of_exponent? hpower⟩
      simp only [Bool.or_eq_true, beq_iff_eq] at hletter
      rcases hletter with rfl | rfl
      · rfl
      · rfl

theorem isWordPart_of_suffix? {cs : List Char} {suffix : Option (List Char) × Option Int}
    (h : Numeral.suffix? cs = some suffix) : ∀ c ∈ cs, isWordPart c = true := by
  rw [Numeral.suffix?.eq_def] at h
  split at h
  · -- the digits of the fraction, with the point
    dsimp only at h
    split at h
    · cases h
    · exact List.forall_mem_cons.mpr ⟨rfl, isWordPart_of_digits (isWordPart_of_exponentPart h)⟩
  · exact isWordPart_of_exponentPart h

/-- **A numeral is one word.** -/
theorem isWordPart_of_read {cs : List Char} {n : Number} (h : Numeral.read cs = some n) :
    cs ≠ [] ∧ ∀ c ∈ cs, isWordPart c = true := by
  obtain ⟨parts, hparts, -⟩ := Option.bind_eq_some_iff.mp h
  constructor
  · rintro rfl
    cases hparts
  · simp only [Numeral.parts?] at hparts
    split at hparts
    · split at hparts
      · cases hparts
      · obtain ⟨suffix, hsuffix, -⟩ := Option.bind_eq_some_iff.mp hparts
        exact List.forall_mem_cons.mpr ⟨rfl, isWordPart_of_digits (isWordPart_of_suffix? hsuffix)⟩
    · split at hparts
      · cases hparts
      · obtain ⟨suffix, hsuffix, -⟩ := Option.bind_eq_some_iff.mp hparts
        exact isWordPart_of_digits (isWordPart_of_suffix? hsuffix)

/-- The names of the other scalars are no numerals. -/
theorem wordToken_of_read {cs : List Char} {n : Number} (h : Numeral.read cs = some n) :
    wordToken cs = some (.scalar (.number n)) := by
  rw [wordToken.eq_def]
  split
  · cases h
  · cases h
  · cases h
  · rw [h]
    rfl

/-! ### Strings -/

theorem hexValue?_hexDigit {n : Nat} (h : n < 16) : Text.hexValue? (hexDigit n) = some n := by
  have hall : ∀ m : Fin 16, Text.hexValue? (hexDigit m) = some m.val := by decide
  exact hall ⟨n, h⟩

/-- A control character is written by its code. -/
theorem tokensFrom_controlEscape (read : List Char) {c : Char} (h : c.toNat < 0x20)
    (cs : List Char) :
    tokensFrom (.text read)
        (['\\', 'u', '0', '0', hexDigit (c.toNat / 16), hexDigit (c.toNat % 16)] ++ cs) =
      tokensFrom (.text (c :: read)) cs := by
  have hhigh : (Lexing.unit read 1 0).step (hexDigit (c.toNat / 16)) =
      some ([], .unit read 0 (c.toNat / 16)) := by
    rw [Lexing.step, hexValue?_hexDigit (by omega)]
    simp
  have hlow : (Lexing.unit read 0 (c.toNat / 16)).step (hexDigit (c.toNat % 16)) =
      some ([], .text (c :: read)) := by
    have hvalue : c.toNat / 16 * 16 + c.toNat % 16 = c.toNat := Nat.div_add_mod' _ _
    have hhigher : ¬(decide (0xD800 ≤ c.toNat) && decide (c.toNat ≤ 0xDBFF)) = true := by
      simp only [Bool.and_eq_true, decide_eq_true_eq]
      omega
    have hlower : ¬(decide (0xDC00 ≤ c.toNat) && decide (c.toNat ≤ 0xDFFF)) = true := by
      simp only [Bool.and_eq_true, decide_eq_true_eq]
      omega
    rw [Lexing.step, hexValue?_hexDigit (by omega)]
    show (if _ then _ else _) = _
    rw [hvalue, if_neg hhigher, if_neg hlower, Char.ofNat_toNat]
    rfl
  calc
    _ = tokensFrom (.unit read 1 0)
          ([hexDigit (c.toNat / 16), hexDigit (c.toNat % 16)] ++ cs) := by
        exact (tokensFrom_within rfl _).trans ((tokensFrom_within rfl _).trans
          ((tokensFrom_within rfl _).trans (tokensFrom_within rfl _)))
    _ = tokensFrom (.text (c :: read)) cs :=
        (tokensFrom_within hhigh _).trans (tokensFrom_within hlow _)

/-- **An escaped character** is read as the character. -/
theorem tokensFrom_escapeChar (read : List Char) (c : Char) (cs : List Char) :
    tokensFrom (.text read) (escapeChar c ++ cs) = tokensFrom (.text (c :: read)) cs := by
  have hshort : ∀ d, shortEscape? d = some c → d ≠ 'u' →
      tokensFrom (.text read) (['\\', d] ++ cs) = tokensFrom (.text (c :: read)) cs := by
    intro d hd hu
    have hescape : (Lexing.escape read).step d = some ([], .text (c :: read)) := by
      rw [Lexing.step, if_neg (by rwa [beq_iff_eq]), hd]
      rfl
    exact (tokensFrom_within rfl _).trans (tokensFrom_within hescape _)
  rw [escapeChar]
  split
  case isTrue h =>
      obtain rfl := beq_iff_eq.mp h
      exact hshort '"' rfl (by decide)
  split
  case isTrue h =>
      obtain rfl := beq_iff_eq.mp h
      exact hshort '\\' rfl (by decide)
  split
  case isTrue h =>
      obtain rfl := beq_iff_eq.mp h
      exact hshort 'b' rfl (by decide)
  split
  case isTrue h =>
      obtain rfl := beq_iff_eq.mp h
      exact hshort 't' rfl (by decide)
  split
  case isTrue h =>
      obtain rfl := beq_iff_eq.mp h
      exact hshort 'n' rfl (by decide)
  split
  case isTrue h =>
      obtain rfl := beq_iff_eq.mp h
      exact hshort 'f' rfl (by decide)
  split
  case isTrue h =>
      obtain rfl := beq_iff_eq.mp h
      exact hshort 'r' rfl (by decide)
  split
  case isTrue hlow =>
      exact tokensFrom_controlEscape read hlow cs
  case isFalse hquote hbackslash _ _ _ _ _ hlow =>
      have hplain : (Lexing.text read).step c = some ([], .text (c :: read)) := by
        rw [Lexing.step, if_neg hquote, if_neg hbackslash, if_neg hlow]
      exact tokensFrom_within hplain cs

/-- **A string literal** is one token. -/
theorem tokensFrom_quote (s : String) {rest : List Char} {ts : List Token}
    (h : tokensFrom .between rest = some ts) :
    tokensFrom .between (quote s ++ rest) = some (.scalar (.string s) :: ts) := by
  have htext : ∀ (cs read : List Char),
      tokensFrom (.text read) (cs.flatMap escapeChar ++ '"' :: rest) =
        some (.scalar (.string (String.ofList (read.reverse ++ cs))) :: ts) := by
    intro cs
    induction cs with
    | nil =>
        intro read
        have hclose : (Lexing.text read).step '"' =
            some ([.scalar (.string (String.ofList read.reverse))], .between) := rfl
        rw [List.append_nil]
        exact tokensFrom_step hclose h
    | cons c cs ih =>
        intro read
        rw [List.flatMap_cons, List.append_assoc, tokensFrom_escapeChar, ih, List.reverse_cons,
          List.append_assoc]
        rfl
  simp only [quote, List.cons_append, List.append_assoc, List.nil_append]
  refine (tokensFrom_within rfl _).trans ((htext s.toList []).trans ?_)
  rw [List.reverse_nil, List.nil_append, String.ofList_toList]

/-! ### Values -/

/-- A mark between values is a token of its own. -/
theorem tokensFrom_mark {c : Char} {mark : Token} {rest : List Char} {ts : List Token}
    (hstep : Lexing.between.step c = some ([mark], .between))
    (h : tokensFrom .between rest = some ts) :
    tokensFrom .between (c :: rest) = some (mark :: ts) :=
  tokensFrom_step hstep h

/-- The items of an array, if each item reads as its tokens. -/
theorem tokensFrom_itemChars {items : List Json}
    (hitems : ∀ item ∈ items, ∀ {rest : List Char} {ts : List Token}, Stops rest →
      tokensFrom .between rest = some ts →
      tokensFrom .between (chars item ++ rest) = some (tokens item ++ ts))
    {rest : List Char} {ts : List Token} (stops : Stops rest)
    (h : tokensFrom .between rest = some ts) :
    tokensFrom .between (itemChars items ++ rest) = some (itemTokens items ++ ts) := by
  induction items with
  | nil => exact h
  | cons item items ih =>
      obtain ⟨hitem, hrest⟩ := List.forall_mem_cons.mp hitems
      cases items with
      | nil => exact hitem stops h
      | cons next items =>
          rw [itemChars_cons_cons, itemTokens_cons_cons, List.append_assoc, List.append_assoc]
          exact hitem (stops_cons rfl _) (tokensFrom_mark rfl (ih hrest))

/-- The members of an object, if each value reads as its tokens. -/
theorem tokensFrom_memberChars {members : List (String × Json)}
    (hmembers : ∀ member ∈ members, ∀ {rest : List Char} {ts : List Token}, Stops rest →
      tokensFrom .between rest = some ts →
      tokensFrom .between (chars member.2 ++ rest) = some (tokens member.2 ++ ts))
    {rest : List Char} {ts : List Token} (stops : Stops rest)
    (h : tokensFrom .between rest = some ts) :
    tokensFrom .between (memberChars members ++ rest) = some (memberTokens members ++ ts) := by
  induction members with
  | nil => exact h
  | cons member members ih =>
      obtain ⟨key, value⟩ := member
      obtain ⟨hvalue, hrest⟩ := List.forall_mem_cons.mp hmembers
      cases members with
      | nil =>
          rw [memberChars, memberTokens, List.append_assoc]
          exact tokensFrom_quote key (tokensFrom_mark rfl (hvalue stops h))
      | cons next members =>
          rw [memberChars_cons_cons, memberTokens_cons_cons]
          simp only [List.append_assoc, List.cons_append]
          exact tokensFrom_quote key (tokensFrom_mark rfl
            (hvalue (stops_cons rfl _) (tokensFrom_mark rfl (ih hrest))))

/-- **The characters of a value give its tokens**, whatever comes after. -/
theorem tokensFrom_chars {room : Nat} {value : Json} (kept : value.Kept room)
    {rest : List Char} {ts : List Token} (stops : Stops rest)
    (h : tokensFrom .between rest = some ts) :
    tokensFrom .between (chars value ++ rest) = some (tokens value ++ ts) := by
  induction kept generalizing rest ts with
  | null => exact tokensFrom_between_word (by decide) (List.all_eq_true.mp rfl) rfl stops h
  | bool b =>
      cases b with
      | true => exact tokensFrom_between_word (by decide) (List.all_eq_true.mp rfl) rfl stops h
      | false => exact tokensFrom_between_word (by decide) (List.all_eq_true.mp rfl) rfl stops h
  | number hread =>
      obtain ⟨hne, hword⟩ := isWordPart_of_read hread
      exact tokensFrom_between_word hne hword (wordToken_of_read hread) stops h
  | string s => exact tokensFrom_quote s h
  | array _ ih =>
      rw [chars, tokens]
      simp only [List.append_assoc, List.cons_append, List.nil_append]
      exact tokensFrom_mark rfl (tokensFrom_itemChars ih (stops_cons rfl _) (tokensFrom_mark rfl h))
  | object _ _ ih =>
      rw [chars, tokens]
      simp only [List.append_assoc, List.cons_append, List.nil_append]
      exact tokensFrom_mark rfl
        (tokensFrom_memberChars ih (stops_cons rfl _) (tokensFrom_mark rfl h))

end PageLoom.Json
