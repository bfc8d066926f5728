import PageLoom.Css.Balance
import PageLoom.Css.Quoting
import PageLoom.Text.Blank

/-!
# Lexing — a stylesheet read one character at a time

    Validation reads a stylesheet token by token, the passes that rewrite it
    read it character by character.  `Lexing` is a reader of the second kind
    that knows what the tokens are: it stands in code, in a comment, in a
    string or in a bare url, and keeps the brackets that are open.

    The passes know strings and comments, but no escapes outside strings and
    no bare urls.  `isPlain` describes the texts for which that is enough,
    character by character; `Reads` is a run of the reader over such a text
    in which no comment occurs.
-/

namespace PageLoom.Css

open Text Token

/-! ## Code -/

/-- What the last characters of code amount to. -/
inductive Recent
  /-- nothing that the next character could go on with -/
  | fresh
  /-- a name, a hash or an at-keyword -/
  | word
  /-- a name that is the start of `url` so far, or `url` -/
  | u | ur | url
  | slash
  /-- the start of `<!--` -/
  | less | bang | dash
  deriving DecidableEq, Repr

namespace Recent

/-- One more character of a name, given in lower case. -/
def letter : Recent → Char → Recent
  | .u, c => if c = 'r' then .ur else .word
  | .ur, c => if c = 'l' then .url else .word
  | .fresh, c | .slash, c | .less, c | .bang, c => if c = 'u' then .u else .word
  | .word, _ | .url, _ | .dash, _ => .word

/-- One more hyphen: it may belong to `<!--`, and to names otherwise. -/
def hyphen : Recent → Recent
  | .bang => .dash
  | .dash => .fresh
  | _ => .word

/-- One more character of code. -/
def next (r : Recent) (c : Char) : Recent :=
  if c = '/' then .slash
  else if c = '<' then .less
  else if c = '!' then if r = .less then .bang else .fresh
  else if c = '-' then r.hyphen
  else if isNameChar c || c = '@' || c = '#' then r.letter c.toLower
  else .fresh

end Recent

/-! ## Strings -/

/-- Where a reader stands inside a string. -/
inductive Stretch
  | plain
  /-- after a backslash -/
  | escaped
  /-- after the hexadecimal digits of an escape -/
  | hex (digits : Nat)
  /-- after a carriage return that belongs to an escape -/
  | carriage
  deriving DecidableEq, Repr

/-! ## Modes -/

/-- Where a reader stands. -/
inductive Mode
  | code (recent : Recent)
  | comment
  /-- inside a comment, after a star -/
  | star
  | string (quote : Char) (stretch : Stretch)
  /-- after `url(`, before the first character that is not white space -/
  | urlStart
  | url
  /-- inside a bare url, after a slash -/
  | urlSlash
  /-- after the white space that follows a bare url -/
  | urlEnd
  deriving DecidableEq, Repr

namespace Mode

/-- A line end that belongs to an escape. -/
def lineEnd (quote c : Char) : Mode :=
  .string quote (if c = '\r' then .carriage else .plain)

/-- A character of a string that belongs to no escape. -/
def inString (quote c : Char) : Option Mode :=
  if c = quote then some (.code .fresh)
  else if isNewline c then none
  else if c = '\\' then some (.string quote .escaped)
  else some (.string quote .plain)

/-- A character of a string. -/
def nextString (quote : Char) : Stretch → Char → Option Mode
  | .plain, c => inString quote c
  | .escaped, c =>
      if isNewline c then some (lineEnd quote c)
      else if isHex c then some (.string quote (.hex 1))
      else some (.string quote .plain)
  | .hex n, c =>
      if isHex c && n < 6 then some (.string quote (.hex (n + 1)))
      else if c = ' ' || c = '\t' then some (.string quote .plain)
      else if isNewline c then some (lineEnd quote c)
      else inString quote c
  | .carriage, c => if c = '\n' then some (.string quote .plain) else inString quote c

/-- A character of a bare url. -/
def inUrl (c : Char) : Option Mode :=
  if c = ')' then some (.code .fresh)
  else if isSpace c then some .urlEnd
  else if isUnprintable c || isQuote c || c = '(' then none
  else if c = '/' then some .urlSlash
  else some .url

/-- Where a reader stands after a character; none when the character breaks a
    string or a bare url. -/
def next : Mode → Char → Option Mode
  | .code r, c =>
      if isQuote c then some (.string c .plain)
      else if c = '*' && r = .slash then some .comment
      else if c = '(' && r = .url then some .urlStart
      else some (.code (r.next c))
  | .comment, c => some (if c = '*' then .star else .comment)
  | .star, c => some (if c = '/' then .code .fresh else if c = '*' then .star else .comment)
  | .string quote stretch, c => nextString quote stretch c
  | .urlStart, c =>
      if isSpace c then some .urlStart
      else if isQuote c then some (.string c .plain)
      else inUrl c
  | .url, c => inUrl c
  | .urlSlash, c => inUrl c
  | .urlEnd, c =>
      if c = ')' then some (.code .fresh)
      else if isSpace c then some .urlEnd
      else none

/-- Whether brackets count here. -/
def counts : Mode → Bool
  | .comment => false
  | .star => false
  | .string _ _ => false
  | _ => true

/-- The string that a reader stands in, as the passes see it. -/
def quoting : Mode → Quoting
  | .string quote .escaped => .escaped quote
  | .string quote _ => .inside quote
  | _ => .code

/-! ## Plain texts -/

/-- Characters that the passes read otherwise than the tokens do, outside
    strings: the backslash, and white space that belongs to names. -/
def isForeign (c : Char) : Bool :=
  c = '\\' || (isBlank c && isNameChar c)

/-- Characters of bare urls that the passes take for no more than text. -/
def isUrlText (c : Char) : Bool :=
  !isForeign c && !(['[', ']', '{', '}'].contains c)

/-- Whether a character means the same to the passes as to the tokens. -/
def admits : Mode → Char → Bool
  | .code _, c => !isForeign c
  | .urlSlash, c => isUrlText c && c != '*'
  | .urlStart, c | .url, c | .urlEnd, c => isUrlText c
  | _, _ => true

/-- **Plain texts**: outside strings and comments they hold no backslash and no
    white space beyond ASCII, and their bare urls hold no brackets and no
    opening of a comment. -/
def isPlain : Mode → List Char → Bool
  | _, [] => true
  | m, c :: t =>
      m.admits c &&
        match m.next c with
        | some m' => isPlain m' t
        | none => true

end Mode

/-! ## What a character does -/

namespace Mode

/-- Whether a reader stands in a bare url. -/
def isUrl : Mode → Bool
  | .urlStart | .url | .urlSlash | .urlEnd => true
  | _ => false

theorem inString_cases {quote c : Char} {m : Mode} (h : inString quote c = some m) :
    m = .code .fresh ∨ ∃ stretch, m = .string quote stretch := by
  rw [inString] at h
  split at h
  · exact Or.inl (Option.some.inj h).symm
  split at h
  · cases h
  · split at h <;> exact Or.inr ⟨_, (Option.some.inj h).symm⟩

/-- **A character of a string** closes it or stays inside. -/
theorem nextString_cases {quote c : Char} {stretch : Stretch} {m : Mode}
    (h : nextString quote stretch c = some m) :
    m = .code .fresh ∨ ∃ stretch, m = .string quote stretch := by
  cases stretch with
  | plain => exact inString_cases h
  | escaped =>
      rw [nextString] at h
      split at h
      · exact Or.inr ⟨_, (Option.some.inj h).symm⟩
      · split at h <;> exact Or.inr ⟨_, (Option.some.inj h).symm⟩
  | hex n =>
      rw [nextString] at h
      split at h
      · exact Or.inr ⟨_, (Option.some.inj h).symm⟩
      split at h
      · exact Or.inr ⟨_, (Option.some.inj h).symm⟩
      split at h
      · exact Or.inr ⟨_, (Option.some.inj h).symm⟩
      · exact inString_cases h
  | carriage =>
      rw [nextString] at h
      split at h
      · exact Or.inr ⟨_, (Option.some.inj h).symm⟩
      · exact inString_cases h

theorem inUrl_cases {c : Char} {m : Mode} (h : inUrl c = some m) :
    isQuote c = false ∧ ((c = ')' ∧ m = .code .fresh) ∨ (c ≠ ')' ∧ m.isUrl = true)) := by
  rw [inUrl] at h
  split at h
  · rename_i hc
    subst hc
    exact ⟨rfl, Or.inl ⟨rfl, (Option.some.inj h).symm⟩⟩
  rename_i hclose
  split at h
  · rename_i hc
    rw [← Option.some.inj h]
    refine ⟨?_, Or.inr ⟨hclose, rfl⟩⟩
    simp only [isSpace, isNewline, Bool.or_eq_true, beq_iff_eq] at hc
    rcases hc with (rfl | rfl) | (rfl | rfl) | rfl <;> decide
  split at h
  · cases h
  · rename_i hc
    simp only [Bool.or_eq_true, not_or, Bool.not_eq_true] at hc
    refine ⟨hc.1.2, Or.inr ⟨hclose, ?_⟩⟩
    split at h <;>
      · rw [← Option.some.inj h]
        rfl

/-- **A character of a bare url** closes it or stays inside, or it is the quote
    that shows the url to be a function. -/
theorem nextUrl_cases {c : Char} {m m' : Mode} (hm : m.isUrl = true) (h : m.next c = some m') :
    (m = .urlStart ∧ isQuote c = true ∧ m' = .string c .plain) ∨
      isQuote c = false ∧ ((c = ')' ∧ m' = .code .fresh) ∨ (c ≠ ')' ∧ m'.isUrl = true)) := by
  have hspace : isSpace c = true → isQuote c = false ∧ c ≠ ')' := by
    intro hc
    simp only [isSpace, isNewline, Bool.or_eq_true, beq_iff_eq] at hc
    rcases hc with (rfl | rfl) | (rfl | rfl) | rfl <;> decide
  cases m with
  | code r => cases hm
  | comment => cases hm
  | star => cases hm
  | string quote stretch => cases hm
  | urlStart =>
      rw [next] at h
      split at h
      · rename_i hc
        rw [← Option.some.inj h]
        exact Or.inr ⟨(hspace hc).1, Or.inr ⟨(hspace hc).2, rfl⟩⟩
      split at h
      · rename_i hc
        exact Or.inl ⟨rfl, hc, (Option.some.inj h).symm⟩
      · exact Or.inr (inUrl_cases h)
  | url => exact Or.inr (inUrl_cases h)
  | urlSlash => exact Or.inr (inUrl_cases h)
  | urlEnd =>
      rw [next] at h
      split at h
      · rename_i hc
        subst hc
        exact Or.inr ⟨rfl, Or.inl ⟨rfl, (Option.some.inj h).symm⟩⟩
      rename_i hclose
      split at h
      · rename_i hc
        rw [← Option.some.inj h]
        exact Or.inr ⟨(hspace hc).1, Or.inr ⟨hclose, rfl⟩⟩
      · cases h

/-- **A character of code** opens a string, a comment or a url, or is more
    code. -/
theorem nextCode_cases {r : Recent} {c : Char} {m : Mode} (h : (code r).next c = some m) :
    (isQuote c = true ∧ m = .string c .plain) ∨
      isQuote c = false ∧ ((c = '*' ∧ r = .slash ∧ m = .comment) ∨
        (c = '(' ∧ r = .url ∧ m = .urlStart) ∨ m = .code (r.next c)) := by
  rw [next] at h
  split at h
  · rename_i hc
    exact Or.inl ⟨hc, (Option.some.inj h).symm⟩
  rename_i hquote
  refine Or.inr ⟨Bool.eq_false_iff.mpr hquote, ?_⟩
  split at h
  · rename_i hc
    rw [Bool.and_eq_true, decide_eq_true_eq, decide_eq_true_eq] at hc
    exact Or.inl ⟨hc.1, hc.2, (Option.some.inj h).symm⟩
  split at h
  · rename_i hc
    rw [Bool.and_eq_true, decide_eq_true_eq, decide_eq_true_eq] at hc
    exact Or.inr (Or.inl ⟨hc.1, hc.2, (Option.some.inj h).symm⟩)
  · exact Or.inr (Or.inr (Option.some.inj h).symm)

/-- **Where a character leads**, case by case. -/
theorem next_cases {m m' : Mode} {c : Char} (h : m.next c = some m') :
    ((m = .comment ∨ m = .star) ∧ (m' = .code .fresh ∨ m' = .comment ∨ m' = .star)) ∨
      (∃ quote stretch, m = .string quote stretch ∧
        (m' = .code .fresh ∨ ∃ stretch, m' = .string quote stretch)) ∨
      (m.isUrl = true ∧ (m' = .string c .plain ∨ m' = .code .fresh ∨ m'.isUrl = true)) ∨
      ∃ r, m = .code r ∧ (m' = .string c .plain ∨ (c = '*' ∧ r = .slash ∧ m' = .comment) ∨
        (c = '(' ∧ r = .url ∧ m' = .urlStart) ∨ m' = .code (r.next c)) := by
  have hurl : m.isUrl = true → m' = .string c .plain ∨ m' = .code .fresh ∨ m'.isUrl = true := by
    intro hm
    rcases nextUrl_cases hm h with ⟨-, -, heq⟩ | ⟨-, ⟨-, heq⟩ | ⟨-, hm'⟩⟩
    · exact Or.inl heq
    · exact Or.inr (Or.inl heq)
    · exact Or.inr (Or.inr hm')
  cases m with
  | comment =>
      rw [next] at h
      refine Or.inl ⟨Or.inl rfl, Or.inr ?_⟩
      split at h
      · exact Or.inr (Option.some.inj h).symm
      · exact Or.inl (Option.some.inj h).symm
  | star =>
      rw [next] at h
      refine Or.inl ⟨Or.inr rfl, ?_⟩
      split at h
      · exact Or.inl (Option.some.inj h).symm
      split at h
      · exact Or.inr (Or.inr (Option.some.inj h).symm)
      · exact Or.inr (Or.inl (Option.some.inj h).symm)
  | string quote stretch => exact Or.inr (Or.inl ⟨quote, stretch, rfl, nextString_cases h⟩)
  | code r =>
      refine Or.inr (Or.inr (Or.inr ⟨r, rfl, ?_⟩))
      exact (nextCode_cases h).imp And.right And.right
  | _ => exact Or.inr (Or.inr (Or.inl ⟨rfl, hurl rfl⟩))

end Mode

/-! ## The reader -/

/-- A reader: where it stands, and the brackets open there, the innermost
    first. -/
structure Lexing where
  mode : Mode := .code .fresh
  stack : List Bracket := []
  deriving DecidableEq, Repr

/-- The open brackets once `b` is closed; none when the innermost is another. -/
def close (b : Bracket) : List Bracket → Option (List Bracket)
  | [] => none
  | b' :: stack => if b' = b then some stack else none

/-- The open brackets after a character that counts. -/
def turn (stack : List Bracket) (c : Char) : Option (List Bracket) :=
  if c = '(' then some (.round :: stack)
  else if c = '[' then some (.square :: stack)
  else if c = '{' then some (.curly :: stack)
  else if c = ')' then close .round stack
  else if c = ']' then close .square stack
  else if c = '}' then close .curly stack
  else some stack

namespace Lexing

/-- The reader after a character; none when the text is unsound there. -/
def next (l : Lexing) (c : Char) : Option Lexing :=
  (l.mode.next c).bind fun mode =>
    if l.mode.counts then (turn l.stack c).map fun stack => ⟨mode, stack⟩
    else some ⟨mode, l.stack⟩

/-- The reader after a text. -/
def after : Lexing → List Char → Option Lexing
  | l, [] => some l
  | l, c :: t => (l.next c).bind fun l => after l t

theorem after_cons_of_some {l l' : Lexing} {c : Char} (h : l.next c = some l') (t : List Char) :
    l.after (c :: t) = l'.after t := by
  show (l.next c).bind (fun l => after l t) = _
  rw [h]
  rfl

/-- Reading two texts in turn is reading their concatenation. -/
theorem after_append (l : Lexing) (a b : List Char) :
    l.after (a ++ b) = (l.after a).bind fun l => l.after b := by
  induction a generalizing l with
  | nil => rfl
  | cons c a ih =>
      show (l.next c).bind (fun l => after l (a ++ b)) =
        ((l.next c).bind fun l => after l a).bind fun l => l.after b
      cases l.next c with
      | none => rfl
      | some l' => exact ih l'

end Lexing

theorem Lexing.mode_of_next {l l' : Lexing} {c : Char} (h : l.next c = some l') :
    l.mode.next c = some l'.mode := by
  obtain ⟨m, hm, hl⟩ := Option.bind_eq_some_iff.mp h
  rw [hm]
  split at hl
  · obtain ⟨stack, -, rfl⟩ := Option.map_eq_some_iff.mp hl
    rfl
  · rw [← Option.some.inj hl]

/-! ## Plain runs -/

/-- **A plain run**: the reader goes from one place to another over a plain
    text in which no comment opens. -/
inductive Reads : Lexing → List Char → Lexing → Prop
  | nil (l : Lexing) : Reads l [] l
  | cons {l l' l'' : Lexing} {c : Char} {t : List Char} (hadmits : l.mode.admits c = true)
      (hnext : l.next c = some l') (hcomment : l'.mode ≠ .comment) (ht : Reads l' t l'') :
      Reads l (c :: t) l''

namespace Reads

variable {l l' l'' : Lexing} {a b t : List Char}

theorem append (ha : Reads l a l') (hb : Reads l' b l'') : Reads l (a ++ b) l'' := by
  induction ha with
  | nil _ => exact hb
  | cons hadmits hnext hcomment _ ih => exact .cons hadmits hnext hcomment (ih hb)

theorem exists_of_append (h : Reads l (a ++ b) l'') : ∃ l', Reads l a l' ∧ Reads l' b l'' := by
  induction a generalizing l with
  | nil => exact ⟨l, .nil l, h⟩
  | cons c a ih =>
      cases h with
      | cons hadmits hnext hcomment ht =>
          obtain ⟨m, ha, hb⟩ := ih ht
          exact ⟨m, .cons hadmits hnext hcomment ha, hb⟩

theorem after_eq (h : Reads l t l') : l.after t = some l' := by
  induction h with
  | nil _ => rfl
  | cons _ hnext _ _ ih => exact (Lexing.after_cons_of_some hnext _).trans ih

theorem isPlain (h : Reads l t l') : l.mode.isPlain t = true := by
  induction h with
  | nil _ => rfl
  | cons hadmits hnext _ _ ih =>
      rw [Mode.isPlain, hadmits, Lexing.mode_of_next hnext]
      exact ih

/-- A reader comes to one place. -/
theorem unique (h : Reads l t l') (h' : Reads l t l'') : l' = l'' :=
  Option.some.inj (h.after_eq.symm.trans h'.after_eq)

end Reads

end PageLoom.Css
