import PageLoom.Proofs.Css.Scan
import PageLoom.Proofs.Text.Bytes

/-!
# Offsets — string literals, byte by byte

    The passes over stylesheets may be run over bytes: a byte of ASCII is a
    character (`isAt_boundary`), other bytes mean nothing (`isAt_of_high`), and
    at a quote a pass jumps to the end of the literal.  Inside a literal a
    backslash takes the byte after it along, so the jump over both can end
    inside a character; but no byte there is a quote or a backslash, and the
    end of the literal is a boundary again (`literalEnd_eq`).  Over characters
    a pass goes through the literal and comes to the same place
    (`Quoting.skip_literal`).
-/

namespace PageLoom.Css

open Text
open String (utf8Len utf8Len_append utf8Len_cons)

/-! ## Literals by characters -/

namespace Quoting

/-- The text up to and including the quote that closes the literal. -/
def literal : Quoting → List Char → List Char
  | _, [] => []
  | q, c :: cs => if q.next c = .code then [c] else c :: literal (q.next c) cs

/-- The text after the quote that closes the literal. -/
def afterLiteral : Quoting → List Char → List Char
  | _, [] => []
  | q, c :: cs => if q.next c = .code then cs else afterLiteral (q.next c) cs

/-- A literal and what comes after it are the whole text. -/
theorem literal_append (q : Quoting) (cs : List Char) :
    q.literal cs ++ q.afterLiteral cs = cs := by
  induction cs generalizing q with
  | nil => rfl
  | cons c cs ih =>
      rw [literal, afterLiteral]
      split
      · rfl
      · exact congrArg (c :: ·) (ih (q.next c))

theorem length_afterLiteral_le (q : Quoting) (cs : List Char) :
    (q.afterLiteral cs).length ≤ cs.length := by
  conv => rhs; rw [← q.literal_append cs, List.length_append]
  exact Nat.le_add_left ..

/-- A scan that takes up the characters of literals as they are is after a
    literal where a scan outside of literals is. -/
theorem skip_literal_of_ne {α : Type} {f : Quoting → List Char → List Char → α}
    (hcons : ∀ q read c cs, q ≠ .code → f q read (c :: cs) = f (q.next c) (c :: read) cs)
    (hnil : ∀ q read, f q read [] = f .code read []) {q : Quoting} (hq : q ≠ .code)
    (read cs : List Char) :
    f q read cs = f .code ((q.literal cs).reverse ++ read) (q.afterLiteral cs) := by
  induction cs generalizing q read with
  | nil => exact hnil q read
  | cons c cs ih =>
      rw [hcons q read c cs hq, literal, afterLiteral]
      split
      · rename_i hclose
        rw [hclose]
        rfl
      · rename_i hopen
        rw [ih hopen, List.reverse_cons, List.append_assoc]
        rfl

/-- **Skipping a literal** after its first quote. -/
theorem skip_literal {α : Type} {f : Quoting → List Char → List Char → α}
    (hcons : ∀ q read c cs, q ≠ .code → f q read (c :: cs) = f (q.next c) (c :: read) cs)
    (hnil : ∀ q read, f q read [] = f .code read []) (quote : Char) (read cs : List Char) :
    f (.inside quote) read cs =
      f .code (((inside quote).literal cs).reverse ++ read) ((inside quote).afterLiteral cs) :=
  skip_literal_of_ne hcons hnil Quoting.noConfusion read cs

end Quoting

theorem isQuote_iff {c : Char} : isQuote c = true ↔ c = '"' ∨ c = '\'' := by
  rw [isQuote, Bool.or_eq_true, beq_iff_eq, beq_iff_eq]

namespace Offset

/-! ## Reading bytes -/

/-- The number of bytes of a text. -/
def size (text : List Char) : Nat :=
  (bytes text).length

/-- Whether the byte at an offset is a character of ASCII. -/
def isAt (text : List Char) (i : Nat) (x : Char) : Bool :=
  (bytes text)[i]? == some x.toUInt8

/-- Whether the byte at an offset is one of some characters of ASCII. -/
def isAnyAt (text : List Char) (i : Nat) (xs : List Char) : Bool :=
  xs.any (isAt text i)

/-- Characters of ASCII. -/
def Ascii (xs : List Char) : Prop :=
  ∀ x ∈ xs, x.toNat < 128

theorem ascii_of_all {xs : List Char} (h : xs.all (fun x => x.toNat < 128) = true) : Ascii xs :=
  fun x hx => of_decide_eq_true (List.all_eq_true.mp h x hx)

/-- The quotes of literals. -/
def quotes : List Char := ['"', '\'']

theorem ascii_quotes : Ascii quotes :=
  ascii_of_all rfl

section Reading

variable {text a b : List Char} {c : Char}

theorem lt_size {i : Nat} {byte : UInt8} (h : (bytes text)[i]? = some byte) : i < size text :=
  (List.getElem?_eq_some_iff.mp h).1

theorem size_append_cons_pos (htext : text = a ++ c :: b) : utf8Len a < size text := by
  have := c.utf8Size_pos
  rw [size, length_bytes, htext, utf8Len_append, utf8Len_cons]
  omega

theorem size_of_append_nil (htext : text = a ++ []) : size text = utf8Len a := by
  rw [size, length_bytes, htext, List.append_nil]

/-- **At a boundary** the byte tells the character. -/
theorem isAt_boundary (htext : text = a ++ c :: b) {x : Char} (hx : x.toNat < 128) :
    isAt text (utf8Len a) x = true ↔ c = x := by
  rw [isAt, beq_iff_eq, htext, bytes_getElem?_boundary, Option.some.injEq, firstByte_eq_iff hx]

theorem isAt_end (htext : text = a ++ []) (x : Char) : isAt text (utf8Len a) x = false := by
  rw [isAt, htext, List.append_nil, bytes_getElem?_end]
  rfl

/-- A byte above ASCII is no character of ASCII. -/
theorem isAt_of_high {i : Nat} {byte : UInt8} (hbyte : (bytes text)[i]? = some byte)
    (hhigh : 128 ≤ byte.toNat) {x : Char} (hx : x.toNat < 128) : isAt text i x = false := by
  rw [isAt, hbyte, beq_eq_false_iff_ne, Ne, Option.some.injEq]
  exact ne_of_high hhigh hx

/-- At a boundary, the byte is that of a character of the set exactly when the
    character is. -/
theorem isAnyAt_boundary (htext : text = a ++ c :: b) {xs : List Char}
    (hxs : Ascii xs) : isAnyAt text (utf8Len a) xs = true ↔ c ∈ xs := by
  rw [isAnyAt, List.any_eq_true]
  constructor
  · rintro ⟨x, hx, hat⟩
    rwa [(isAt_boundary htext (hxs x hx)).mp hat]
  · exact fun hc => ⟨c, hc, (isAt_boundary htext (hxs c hc)).mpr rfl⟩

/-- Inside a character of several bytes there is none of the set. -/
theorem isAnyAt_of_high {i : Nat} {byte : UInt8} (hbyte : (bytes text)[i]? = some byte)
    (hhigh : 128 ≤ byte.toNat) {xs : List Char} (hxs : Ascii xs) :
    isAnyAt text i xs = false := by
  rw [isAnyAt, List.any_eq_false]
  exact fun x hx => Bool.not_eq_true _ ▸ isAt_of_high hbyte hhigh (hxs x hx)

theorem isQuoteAt_boundary (htext : text = a ++ c :: b) :
    isAnyAt text (utf8Len a) quotes = isQuote c := by
  rw [Bool.eq_iff_iff, isAnyAt_boundary htext ascii_quotes, isQuote_iff, quotes, List.mem_cons,
    List.mem_singleton]

end Reading

/-! ## Literals by bytes -/

/-- The offset after the literal that goes on at `i` and that the byte `quote`
    closes. -/
def literalEndFrom (text : List Char) (quote : Option UInt8) (i : Nat) : Nat :=
  if i < size text then
    if isAt text i '\\' then literalEndFrom text quote (i + 2)
    else if (bytes text)[i]? == quote then i + 1
    else literalEndFrom text quote (i + 1)
  else size text
termination_by size text - i

/-- **The offset after a literal** whose first quote is at `i`. -/
def literalEnd (text : List Char) (i : Nat) : Nat :=
  literalEndFrom text (bytes text)[i]? (i + 1)

theorem le_literalEndFrom (text : List Char) (quote : Option UInt8) (i : Nat) :
    min i (size text) ≤ literalEndFrom text quote i := by
  induction i using literalEndFrom.induct text quote with
  | case1 i hlt hat ih =>
      rw [literalEndFrom, if_pos hlt, if_pos hat]
      omega
  | case2 i hlt hat hquote =>
      rw [literalEndFrom, if_pos hlt, if_neg hat, if_pos hquote]
      omega
  | case3 i hlt hat hquote ih =>
      rw [literalEndFrom, if_pos hlt, if_neg hat, if_neg hquote]
      omega
  | case4 i hend =>
      rw [literalEndFrom, if_neg hend]
      exact Nat.min_le_right ..

/-- A literal ends after its first quote. -/
theorem lt_literalEnd {text : List Char} {i : Nat} (h : i < size text) : i < literalEnd text i := by
  have := le_literalEndFrom text (bytes text)[i]? (i + 1)
  rw [literalEnd]
  omega

theorem toNat_lt_of_isQuote {c : Char} (h : isQuote c = true) : c.toNat < 128 := by
  rcases isQuote_iff.mp h with rfl | rfl <;> decide

section LiteralEnd

variable {text : List Char} {quote : Char} (hquote : isQuote quote = true)

include hquote

theorem literalEndFrom_pass {i : Nat} {byte : UInt8} (hbyte : (bytes text)[i]? = some byte)
    (hhigh : 128 ≤ byte.toNat) :
    literalEndFrom text (some (firstByte quote)) i =
      literalEndFrom text (some (firstByte quote)) (i + 1) := by
  have hlt := toNat_lt_of_isQuote hquote
  have hfirst : firstByte quote = quote.toUInt8 := (firstByte_eq_iff hlt).mpr rfl
  rw [literalEndFrom, if_pos (lt_size hbyte),
    isAt_of_high hbyte hhigh (by decide), if_neg Bool.false_ne_true, hbyte, hfirst]
  refine if_neg fun hbyte => ne_of_high hhigh hlt ?_
  exact Option.some.inj (beq_iff_eq.mp hbyte)

/-- The jump over a backslash goes on after the character behind it. -/
theorem literalEndFrom_escape {a cs : List Char} {d : Char} (htext : text = a ++ '\\' :: d :: cs) :
    literalEndFrom text (some (firstByte quote)) (utf8Len a) =
      literalEndFrom text (some (firstByte quote)) (utf8Len (a ++ ['\\'] ++ [d])) := by
  have hnext : text = a ++ ['\\'] ++ d :: cs := by rw [htext, List.append_assoc]; rfl
  have hjump : utf8Len a + 2 = utf8Len (a ++ ['\\']) + 1 := by
    rw [utf8Len_concat_of_lt a (by decide)]
  rw [literalEndFrom, if_pos (size_append_cons_pos htext),
    if_pos ((isAt_boundary htext (by decide)).mpr rfl), hjump]
  -- the jump ends inside the character after the backslash
  exact eq_of_passes (fun _ _ => literalEndFrom_pass hquote) hnext

/-- Any other character closes the literal or is passed. -/
theorem literalEndFrom_char {a cs : List Char} {c : Char} (hc : c ≠ '\\')
    (htext : text = a ++ c :: cs) :
    literalEndFrom text (some (firstByte quote)) (utf8Len a) =
      if c = quote then utf8Len (a ++ [c])
      else literalEndFrom text (some (firstByte quote)) (utf8Len (a ++ [c])) := by
  have hlt := toNat_lt_of_isQuote hquote
  have hbyte : (bytes text)[utf8Len a]? = some (firstByte c) :=
    htext ▸ bytes_getElem?_boundary a c cs
  have hfirst : (some (firstByte c) == some (firstByte quote)) = true ↔ c = quote := by
    rw [beq_iff_eq, Option.some.injEq, (firstByte_eq_iff hlt).mpr (rfl : quote = quote),
      firstByte_eq_iff hlt]
  rw [literalEndFrom, if_pos (lt_size hbyte),
    if_neg (mt (isAt_boundary htext (by decide)).mp hc), hbyte, if_congr hfirst rfl rfl]
  by_cases hclose : c = quote
  · rw [if_pos hclose, if_pos hclose, hclose, utf8Len_concat_of_lt a hlt]
  · rw [if_neg hclose, if_neg hclose]
    exact eq_of_passes (fun _ _ => literalEndFrom_pass hquote) htext

/-- **The end of a literal is a boundary**: the one after the literal. -/
theorem literalEndFrom_eq {a : List Char} (cs : List Char) (htext : text = a ++ cs) :
    literalEndFrom text (some (firstByte quote)) (utf8Len a) =
      utf8Len (a ++ (Quoting.inside quote).literal cs) := by
  induction hlen : cs.length using Nat.strongRecOn generalizing a cs with
  | ind n ih =>
      subst hlen
      cases cs with
      | nil =>
          have hend := size_of_append_nil htext
          rw [literalEndFrom, if_neg (Nat.not_lt.mpr (Nat.le_of_eq hend)), hend, Quoting.literal,
            List.append_nil]
      | cons c cs =>
          have hnext : text = a ++ [c] ++ cs := by rw [htext, List.append_assoc]; rfl
          rw [Quoting.literal, Quoting.next]
          by_cases hbackslash : c = '\\'
          · subst hbackslash
            rw [if_pos rfl, if_neg Quoting.noConfusion]
            cases cs with
            | nil =>
                -- the jump ends behind the text
                have hend := size_of_append_nil hnext
                have hsize := utf8Len_concat_of_lt a (show '\\'.toNat < 128 by decide)
                rw [literalEndFrom, if_pos (by omega),
                  if_pos ((isAt_boundary htext (by decide)).mpr rfl), literalEndFrom,
                  if_neg (by omega), hend]
                rfl
            | cons d cs =>
                have hrest : text = a ++ ['\\'] ++ [d] ++ cs := by
                  rw [hnext, List.append_assoc _ [d]]
                  rfl
                rw [literalEndFrom_escape hquote htext,
                  ih cs.length (by simp only [List.length_cons]; omega) cs hrest rfl,
                  List.append_assoc, List.append_assoc]
                rfl
          · rw [literalEndFrom_char hquote hbackslash htext, if_neg hbackslash]
            by_cases hclose : c = quote
            · rw [if_pos hclose, if_pos hclose, if_pos rfl]
            · rw [if_neg hclose, if_neg hclose, if_neg Quoting.noConfusion,
                ih cs.length (Nat.lt_succ_self _) cs hnext rfl, List.append_assoc]
              rfl

/-- **The end of a literal** by bytes is its end by characters. -/
theorem literalEnd_eq {a cs : List Char} (htext : text = a ++ quote :: cs) :
    literalEnd text (utf8Len a) = utf8Len (a ++ quote :: (Quoting.inside quote).literal cs) := by
  have hbyte : (bytes text)[utf8Len a]? = some (firstByte quote) :=
    htext ▸ bytes_getElem?_boundary a quote cs
  have hnext : text = a ++ [quote] ++ cs := by
    rw [htext, List.append_assoc]
    rfl
  rw [literalEnd, hbyte, ← utf8Len_concat_of_lt a (toNat_lt_of_isQuote hquote),
    literalEndFrom_eq hquote cs hnext, List.append_assoc]
  rfl

end LiteralEnd

/-- **Induction along a scan**: a literal is taken as a whole, every other
    character on its own. -/
theorem scan_induction {P : List Char → List Char → Prop} (nil : ∀ a, P a [])
    (quote : ∀ a c cs, isQuote c = true →
      P (a ++ c :: (Quoting.inside c).literal cs) ((Quoting.inside c).afterLiteral cs) →
      P a (c :: cs))
    (other : ∀ a c cs, isQuote c = false → (∀ a' cs', cs'.length ≤ cs.length → P a' cs') →
      P a (c :: cs)) (a cs : List Char) : P a cs := by
  induction hlen : cs.length using Nat.strongRecOn generalizing a cs with
  | ind n ih =>
      subst hlen
      cases cs with
      | nil => exact nil a
      | cons c cs =>
          cases hc : isQuote c with
          | true =>
              have hle := (Quoting.inside c).length_afterLiteral_le cs
              exact quote a c cs hc (ih _ (Nat.lt_succ_of_le hle) _ _ rfl)
          | false => exact other a c cs hc fun a' cs' hle => ih _ (Nat.lt_succ_of_le hle) a' cs' rfl

/-- A text around a literal. -/
theorem append_literal {text a cs : List Char} {c : Char} (htext : text = a ++ c :: cs) :
    text = a ++ c :: (Quoting.inside c).literal cs ++ (Quoting.inside c).afterLiteral cs := by
  rw [List.append_assoc, List.cons_append, Quoting.literal_append, htext]

theorem append_char {text a cs : List Char} {c : Char} (htext : text = a ++ c :: cs) :
    text = a ++ [c] ++ cs := by
  rw [htext, List.append_assoc]
  rfl

end Offset

end PageLoom.Css
