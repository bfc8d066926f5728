import PageLoom.Json.Numeral

/-!
# JSON text — reading a value

    Reading has two stages, each one pass over its input: the characters are
    grouped into tokens, and the tokens drive a machine whose state holds
    the containers still open.  Containers nest at most 127 deep.

    `length_of_read_string` says that the string a text decodes to is at
    least two characters shorter than the text; whoever decodes strings
    inside strings therefore comes to an end.
-/

namespace PageLoom.Json

/-- A token of JSON text. -/
inductive Token
  | openArray
  | closeArray
  | openObject
  | closeObject
  | comma
  | colon
  | scalar (value : Json)

/-! ## Tokens -/

/-- Where the grouping of characters stands.  Texts being read are kept last
    character first. -/
inductive Lexing
  /-- between tokens -/
  | between
  /-- in a literal name or a numeral -/
  | word (read : List Char)
  /-- in a string -/
  | text (read : List Char)
  /-- after a backslash -/
  | escape (read : List Char)
  /-- in the hexadecimal digits of a code unit, `left` more to come -/
  | unit (read : List Char) (left value : Nat)
  /-- after a leading surrogate -/
  | surrogate (read : List Char) (high : Nat)
  /-- after a leading surrogate and a backslash -/
  | surrogateMark (read : List Char) (high : Nat)
  /-- in the hexadecimal digits of a trailing surrogate -/
  | surrogateUnit (read : List Char) (high left value : Nat)

/-- White space between tokens. -/
def isGap (c : Char) : Bool :=
  c == ' ' || c == '\n' || c == '\t' || c == '\r'

/-- Characters of literal names and numerals. -/
def isWordPart (c : Char) : Bool :=
  c.isAlphanum || c == '+' || c == '-' || c == '.'

/-- The token of a literal name or a numeral. -/
def wordToken (word : List Char) : Option Token :=
  match word with
  | ['n', 'u', 'l', 'l'] => some (.scalar .null)
  | ['t', 'r', 'u', 'e'] => some (.scalar (.bool true))
  | ['f', 'a', 'l', 's', 'e'] => some (.scalar (.bool false))
  | _ => (Numeral.read word).map fun n => .scalar (.number n)

/-- The character a short escape stands for. -/
def shortEscape? (c : Char) : Option Char :=
  match c with
  | '"' => some '"'
  | '\\' => some '\\'
  | '/' => some '/'
  | 'b' => some '\x08'
  | 'f' => some '\x0c'
  | 'n' => some '\n'
  | 'r' => some '\r'
  | 't' => some '\t'
  | _ => none

/-- What one character does: the tokens it completes and the new state. -/
def Lexing.step : Lexing → Char → Option (List Token × Lexing)
  | .between, c => between c
  | .word read, c =>
      if isWordPart c then some ([], .word (c :: read))
      else do
        let token ← wordToken read.reverse
        let (tokens, state) ← between c
        return (token :: tokens, state)
  | .text read, c =>
      if c == '"' then some ([.scalar (.string (String.ofList read.reverse))], .between)
      else if c == '\\' then some ([], .escape read)
      else if c.toNat < 0x20 then none
      else some ([], .text (c :: read))
  | .escape read, c =>
      if c == 'u' then some ([], .unit read 3 0)
      else (shortEscape? c).map fun d => ([], .text (d :: read))
  | .unit read left value, c => do
      let value := value * 16 + (← Text.hexValue? c)
      match left with
      | left + 1 => return ([], .unit read left value)
      | 0 =>
          if 0xD800 ≤ value && value ≤ 0xDBFF then return ([], .surrogate read value)
          else if 0xDC00 ≤ value && value ≤ 0xDFFF then none
          else return ([], .text (Char.ofNat value :: read))
  | .surrogate read high, c => if c == '\\' then some ([], .surrogateMark read high) else none
  | .surrogateMark read high, c =>
      if c == 'u' then some ([], .surrogateUnit read high 3 0) else none
  | .surrogateUnit read high left value, c => do
      let value := value * 16 + (← Text.hexValue? c)
      match left with
      | left + 1 => return ([], .surrogateUnit read high left value)
      | 0 =>
          if 0xDC00 ≤ value && value ≤ 0xDFFF then
            let code := 0x10000 + (high - 0xD800) * 0x400 + (value - 0xDC00)
            return ([], .text (Char.ofNat code :: read))
          else none
where
  /-- A character between tokens. -/
  between (c : Char) : Option (List Token × Lexing) :=
    if isGap c then some ([], .between)
    else if c == '"' then some ([], .text [])
    else if isWordPart c then some ([], .word [c])
    else
      match c with
      | '[' => some ([.openArray], .between)
      | ']' => some ([.closeArray], .between)
      | '{' => some ([.openObject], .between)
      | '}' => some ([.closeObject], .between)
      | ',' => some ([.comma], .between)
      | ':' => some ([.colon], .between)
      | _ => none

/-- The tokens of a text, from a state on. -/
def tokensFrom : Lexing → List Char → Option (List Token)
  | .between, [] => some []
  | .word read, [] => (wordToken read.reverse).map ([·])
  | _, [] => none
  | state, c :: cs => do
      let (tokens, state) ← state.step c
      return tokens ++ (← tokensFrom state cs)

/-! ## Values -/

/-- A container still open around the value being read: the items or members
    before it, last first, and in an object the key. -/
inductive Frame
  | item (done : List Json)
  | member (done : List (String × Json)) (key : String)

/-- What may come next. -/
inductive Reading
  /-- a value -/
  | value (stack : List Frame)
  /-- the first item of an array, or its end -/
  | itemOrClose (stack : List Frame)
  /-- a comma, or the end of the array -/
  | afterItem (stack : List Frame) (done : List Json)
  /-- the first key of an object, or its end -/
  | keyOrClose (stack : List Frame)
  /-- a key -/
  | key (stack : List Frame) (done : List (String × Json))
  /-- the colon after a key -/
  | colon (stack : List Frame) (done : List (String × Json)) (key : String)
  /-- a comma, or the end of the object -/
  | afterMember (stack : List Frame) (done : List (String × Json))
  /-- nothing -/
  | finished (value : Json)

/-- The greatest number of containers around a value. -/
def depthLimit : Nat := 127

/-- A completed value handed to the container around it. -/
def deliver (value : Json) : List Frame → Reading
  | [] => .finished value
  | .item done :: stack => .afterItem stack (value :: done)
  | .member done key :: stack => .afterMember stack ((key, value) :: done)

/-- A token where a value must come. -/
def startValue (stack : List Frame) : Token → Option Reading
  | .scalar value => some (deliver value stack)
  | .openArray => if stack.length < depthLimit then some (.itemOrClose stack) else none
  | .openObject => if stack.length < depthLimit then some (.keyOrClose stack) else none
  | _ => none

/-- What one token does. -/
def Reading.step : Reading → Token → Option Reading
  | .value stack, token => startValue stack token
  | .itemOrClose stack, .closeArray => some (deliver (.array []) stack)
  | .itemOrClose stack, token => startValue (.item [] :: stack) token
  | .afterItem stack done, .comma => some (.value (.item done :: stack))
  | .afterItem stack done, .closeArray => some (deliver (.array done.reverse) stack)
  | .keyOrClose stack, .closeObject => some (deliver (.object []) stack)
  | .keyOrClose stack, .scalar (.string name) => some (.colon stack [] name)
  | .key stack done, .scalar (.string name) => some (.colon stack done name)
  | .colon stack done name, .colon => some (.value (.member done name :: stack))
  | .afterMember stack done, .comma => some (.key stack done)
  | .afterMember stack done, .closeObject => some (deliver (ofMembers done.reverse) stack)
  | _, _ => none

/-- The value that tokens complete, from a state on. -/
def valueFrom : Reading → List Token → Option Json
  | .finished value, [] => some value
  | _, [] => none
  | state, token :: tokens => do valueFrom (← state.step token) tokens

/-- The value written as a list of characters. -/
def readChars (cs : List Char) : Option Json := do
  valueFrom (.value []) (← tokensFrom .between cs)

/-- **Reading**: the value a text denotes; none when the text is malformed. -/
def read (s : String) : Option Json :=
  readChars s.toList

/-! ## Decoded strings are shorter than their text -/

/-- The characters of the strings among tokens, with their quotes. -/
def stringWeight : List Token → Nat
  | [] => 0
  | .scalar (.string s) :: tokens => s.toList.length + 2 + stringWeight tokens
  | _ :: tokens => stringWeight tokens

private theorem stringWeight_append (a b : List Token) :
    stringWeight (a ++ b) = stringWeight a + stringWeight b := by
  induction a with
  | nil => simp [stringWeight]
  | cons t a ih =>
      cases t with
      | scalar v => cases v <;> simp [stringWeight, ih, Nat.add_assoc]
      | _ => simp [stringWeight, ih]

/-- The characters of a string consumed so far. -/
def Lexing.weight : Lexing → Nat
  | .between => 0
  | .word _ => 0
  | .text read => read.length + 1
  | .escape read => read.length + 2
  | .unit read _ _ => read.length + 2
  | .surrogate read _ => read.length + 2
  | .surrogateMark read _ => read.length + 2
  | .surrogateUnit read _ _ _ => read.length + 2

private theorem stringWeight_wordToken {word : List Char} {token : Token}
    (h : wordToken word = some token) : stringWeight [token] = 0 := by
  rw [wordToken.eq_def] at h
  split at h
  · cases h; rfl
  · cases h; rfl
  · cases h; rfl
  · obtain ⟨n, _, rfl⟩ := Option.map_eq_some_iff.mp h
    rfl

private theorem weight_between {c : Char} {tokens : List Token} {state : Lexing}
    (h : Lexing.step.between c = some (tokens, state)) :
    stringWeight tokens + state.weight ≤ 1 := by
  rw [Lexing.step.between.eq_def] at h
  split at h
  · cases h; simp [stringWeight, Lexing.weight]
  split at h
  · cases h; simp [stringWeight, Lexing.weight]
  split at h
  · cases h; simp [stringWeight, Lexing.weight]
  split at h <;> first | (cases h; simp [stringWeight, Lexing.weight]) | exact nomatch h

/-- One character adds at most one to the weight. -/
theorem weight_step {state state' : Lexing} {c : Char} {tokens : List Token}
    (h : state.step c = some (tokens, state')) :
    stringWeight tokens + state'.weight ≤ state.weight + 1 := by
  cases state with
  | between =>
      have := weight_between h
      simpa [Lexing.weight] using this
  | word read =>
      simp only [Lexing.step] at h
      split at h
      · cases h; simp [stringWeight, Lexing.weight]
      · simp only [Option.bind_eq_bind, Option.bind_eq_some_iff, Option.pure_def,
          Option.some.injEq, Prod.mk.injEq, Prod.exists] at h
        obtain ⟨token, hw, ts, st, hb, rfl, rfl⟩ := h
        have h1 := stringWeight_wordToken hw
        have h2 := weight_between hb
        have h3 := stringWeight_append [token] ts
        simp only [List.singleton_append] at h3
        simp only [Lexing.weight, Nat.zero_add]
        rw [h3, h1, Nat.zero_add]
        exact h2
  | text read =>
      simp only [Lexing.step] at h
      split at h
      · cases h; simp [stringWeight, Lexing.weight]
      split at h
      · cases h; simp [stringWeight, Lexing.weight]
      split at h
      · exact nomatch h
      · cases h; simp [stringWeight, Lexing.weight]
  | escape read =>
      simp only [Lexing.step] at h
      split at h
      · cases h; simp [stringWeight, Lexing.weight]
      · obtain ⟨d, _, hd⟩ := Option.map_eq_some_iff.mp h
        cases hd
        simp [stringWeight, Lexing.weight]
  | unit read left value =>
      simp only [Lexing.step, Option.bind_eq_bind, Option.bind_eq_some_iff] at h
      obtain ⟨n, _, h⟩ := h
      cases left with
      | succ left => cases h; simp [stringWeight, Lexing.weight]
      | zero =>
          simp only at h
          split at h
          · cases h; simp [stringWeight, Lexing.weight]
          split at h
          · exact nomatch h
          · cases h; simp [stringWeight, Lexing.weight]
  | surrogate read high =>
      simp only [Lexing.step] at h
      split at h
      · cases h; simp [stringWeight, Lexing.weight]
      · exact nomatch h
  | surrogateMark read high =>
      simp only [Lexing.step] at h
      split at h
      · cases h; simp [stringWeight, Lexing.weight]
      · exact nomatch h
  | surrogateUnit read high left value =>
      simp only [Lexing.step, Option.bind_eq_bind, Option.bind_eq_some_iff] at h
      obtain ⟨n, _, h⟩ := h
      cases left with
      | succ left => cases h; simp [stringWeight, Lexing.weight]
      | zero =>
          simp only at h
          split at h
          · cases h; simp [stringWeight, Lexing.weight]
          · exact nomatch h

/-- The strings among the tokens of a text fit into the text. -/
theorem stringWeight_tokensFrom {cs : List Char} {state : Lexing} {tokens : List Token}
    (h : tokensFrom state cs = some tokens) :
    stringWeight tokens ≤ state.weight + cs.length := by
  induction cs generalizing state tokens with
  | nil =>
      cases state with
      | between => cases h; simp [stringWeight]
      | word read =>
          obtain ⟨token, hw, rfl⟩ := Option.map_eq_some_iff.mp h
          rw [stringWeight_wordToken hw]
          exact Nat.zero_le _
      | _ => exact nomatch h
  | cons c cs ih =>
      simp only [tokensFrom, Option.bind_eq_bind, Option.bind_eq_some_iff, Option.pure_def,
        Option.some.injEq, Prod.exists] at h
      obtain ⟨ts, st, hstep, rest, hrest, rfl⟩ := h
      have h1 := weight_step hstep
      have h2 := ih hrest
      rw [stringWeight_append, List.length_cons]
      omega

/-- Whether a value is an array or an object. -/
def isContainer : Json → Bool
  | .array _ => true
  | .object _ => true
  | _ => false

/-- Whether the value being read, or the value read, is a container. -/
def Reading.inContainer : Reading → Bool
  | .value stack => !stack.isEmpty
  | .finished v => isContainer v
  | _ => true

private theorem inContainer_deliver {value : Json} {stack : List Frame}
    (h : isContainer value = true ∨ stack ≠ []) : (deliver value stack).inContainer = true := by
  cases stack with
  | nil => simpa [deliver, Reading.inContainer] using h
  | cons f stack => cases f <;> rfl

private theorem inContainer_startValue {stack : List Frame} {token : Token} {state : Reading}
    (hs : stack ≠ []) (h : startValue stack token = some state) : state.inContainer = true := by
  cases token with
  | scalar v => cases h; exact inContainer_deliver (Or.inr hs)
  | openArray => simp only [startValue] at h; split at h <;> cases h; rfl
  | openObject => simp only [startValue] at h; split at h <;> cases h; rfl
  | _ => exact nomatch h

private theorem step_itemOrClose {stack : List Frame} {token : Token}
    (h : token ≠ .closeArray) :
    (Reading.itemOrClose stack).step token = startValue (.item [] :: stack) token := by
  cases token <;> first | rfl | exact absurd rfl h

private theorem inContainer_step {state state' : Reading} {token : Token}
    (hin : state.inContainer = true) (h : state.step token = some state') :
    state'.inContainer = true := by
  cases state with
  | value stack =>
      refine inContainer_startValue ?_ h
      simpa [Reading.inContainer] using hin
  | itemOrClose stack =>
      by_cases hc : token = .closeArray
      · subst hc
        cases h
        exact inContainer_deliver (Or.inl rfl)
      · rw [step_itemOrClose hc] at h
        exact inContainer_startValue (List.cons_ne_nil _ _) h
  | afterItem stack done =>
      cases token with
      | closeArray => cases h; exact inContainer_deliver (Or.inl rfl)
      | comma => cases h; rfl
      | _ => exact nomatch h
  | keyOrClose stack =>
      cases token with
      | closeObject => cases h; exact inContainer_deliver (Or.inl rfl)
      | scalar v => cases v <;> first | (cases h; rfl) | exact nomatch h
      | _ => exact nomatch h
  | key stack done =>
      cases token with
      | scalar v => cases v <;> first | (cases h; rfl) | exact nomatch h
      | _ => exact nomatch h
  | colon stack done key =>
      cases token with
      | colon => cases h; rfl
      | _ => exact nomatch h
  | afterMember stack done =>
      cases token with
      | closeObject => cases h; exact inContainer_deliver (Or.inl rfl)
      | comma => cases h; rfl
      | _ => exact nomatch h
  | finished v => cases token <;> exact nomatch h

private theorem isContainer_of_valueFrom {tokens : List Token} {state : Reading} {value : Json}
    (hin : state.inContainer = true) (h : valueFrom state tokens = some value) :
    isContainer value = true := by
  induction tokens generalizing state with
  | nil =>
      cases state with
      | finished v => cases h; exact hin
      | _ => exact nomatch h
  | cons token tokens ih =>
      rw [valueFrom.eq_def] at h
      simp only [Option.bind_eq_bind, Option.bind_eq_some_iff] at h
      obtain ⟨state', hstep, h⟩ := h
      exact ih (inContainer_step hin hstep) h

/-- A text that reads as a string consists of the one token. -/
theorem tokens_of_string {tokens : List Token} {s : String}
    (h : valueFrom (.value []) tokens = some (.string s)) : tokens = [.scalar (.string s)] := by
  cases tokens with
  | nil => exact nomatch h
  | cons token tokens =>
      simp only [valueFrom, Reading.step, Option.bind_eq_bind, Option.bind_eq_some_iff] at h
      obtain ⟨state, hstart, h⟩ := h
      cases token with
      | scalar v =>
          cases hstart
          cases tokens with
          | nil => cases h; rfl
          | cons t ts =>
              simp only [deliver, valueFrom, Option.bind_eq_bind, Option.bind_eq_some_iff] at h
              obtain ⟨_, hstep, _⟩ := h
              cases t <;> exact nomatch hstep
      | openArray =>
          simp only [startValue] at hstart
          split at hstart <;> cases hstart
          exact absurd (isContainer_of_valueFrom rfl h) (by simp [isContainer])
      | openObject =>
          simp only [startValue] at hstart
          split at hstart <;> cases hstart
          exact absurd (isContainer_of_valueFrom rfl h) (by simp [isContainer])
      | _ => exact nomatch hstart

/-- **Decoding shortens**: a string is at least two characters shorter than the
    text it was read from. -/
theorem length_of_read_string {text s : String} (h : read text = some (.string s)) :
    s.toList.length + 2 ≤ text.toList.length := by
  simp only [read, readChars, Option.bind_eq_bind, Option.bind_eq_some_iff] at h
  obtain ⟨tokens, htokens, hvalue⟩ := h
  have h1 := stringWeight_tokensFrom htokens
  rw [tokens_of_string hvalue] at h1
  simpa [stringWeight, Lexing.weight] using h1

end PageLoom.Json
