import PageLoom.Content.Filter
import PageLoom.Proofs.Text.Bytes
import PageLoom.Proofs.Text.Letters

/-!
# Query values — an encoding that is undone

    An encoded text consists of single characters, which stand for one byte
    each, and of codes, a percent sign with two digits.  A form decoder reads
    it from the left: what it does with one encoded byte leaves it at the
    start of the next (`decodeForm_encodeByte`), whatever follows.  So it gives
    the bytes of the text back, a `+` and a `%` of the text included, and no two
    texts are encoded alike (`encodeQuery_decodes`).
-/

namespace PageLoom

open Text

namespace Html

/-! ## Decoding -/

/-- The byte that two hexadecimal digits spell. -/
def codedByte? (high low : Char) : Option UInt8 :=
  (hexValue? high).bind fun h => (hexValue? low).map fun l => .ofNat (h * 16 + l)

/-- **Form decoding**: the bytes that a text stands for.  A `+` is a space, a
    percent sign with two hexadecimal digits is the byte they spell, and any
    other character is itself. -/
def decodeForm : List Char → List UInt8
  | [] => []
  | '+' :: cs => 0x20 :: decodeForm cs
  | '%' :: high :: low :: cs =>
      match codedByte? high low with
      | some b => b :: decodeForm cs
      | none => 0x25 :: decodeForm (high :: low :: cs)
  | c :: cs => String.utf8EncodeChar c ++ decodeForm cs

/-- A plus sign is a space. -/
theorem decodeForm_plus (cs : List Char) : decodeForm ('+' :: cs) = 0x20 :: decodeForm cs := by
  rw [decodeForm]

/-- A percent sign and two digits are one byte. -/
theorem decodeForm_code {high low : Char} {b : UInt8} (h : codedByte? high low = some b)
    (cs : List Char) : decodeForm ('%' :: high :: low :: cs) = b :: decodeForm cs := by
  rw [decodeForm, h]

/-- Any other character is itself. -/
theorem decodeForm_char {c : Char} (hplus : c ≠ '+') (hpercent : c ≠ '%') (cs : List Char) :
    decodeForm (c :: cs) = String.utf8EncodeChar c ++ decodeForm cs := by
  rw [decodeForm]
  · exact hplus
  · intro high low rest h
    exact absurd h hpercent

/-! ## The alphabet -/

/-- Hexadecimal digits in upper case. -/
def isUpperHex (c : Char) : Bool :=
  c.isDigit || ('A' ≤ c && c ≤ 'F')

/-- The characters of an encoded text. -/
def isFormChar (c : Char) : Bool :=
  c.isAlphanum || ['-', '_', '.', '+', '%'].contains c

/-- Every percent sign of a text has two upper-case hexadecimal digits after it. -/
def PercentCoded (cs : List Char) : Prop :=
  ∀ before after, cs = before ++ '%' :: after →
    ∃ high low rest, after = high :: low :: rest ∧ isUpperHex high = true ∧ isUpperHex low = true

theorem percentCoded_nil : PercentCoded [] := by
  intro before after h
  exact absurd h.symm (by simp)

/-- A character that is no percent sign may stand before any text. -/
theorem PercentCoded.cons {c : Char} {cs : List Char} (hc : c ≠ '%') (h : PercentCoded cs) :
    PercentCoded (c :: cs) := by
  intro before after heq
  cases before with
  | nil =>
      obtain ⟨hhead, -⟩ := List.cons.inj heq
      exact absurd hhead hc
  | cons d before =>
      obtain ⟨-, htail⟩ := List.cons.inj heq
      exact h before after htail

theorem ne_percent_of_isUpperHex {c : Char} (h : isUpperHex c = true) : c ≠ '%' := by
  rintro rfl
  cases h

/-- A code may stand before any text. -/
theorem PercentCoded.code {high low : Char} {cs : List Char} (hhigh : isUpperHex high = true)
    (hlow : isUpperHex low = true) (h : PercentCoded cs) :
    PercentCoded ('%' :: high :: low :: cs) := by
  intro before after heq
  cases before with
  | nil =>
      obtain ⟨-, htail⟩ := List.cons.inj heq
      exact ⟨high, low, cs, htail.symm, hhigh, hlow⟩
  | cons d before =>
      obtain ⟨-, htail⟩ := List.cons.inj heq
      have hrest : PercentCoded (high :: low :: cs) :=
        (h.cons (ne_percent_of_isUpperHex hlow)).cons (ne_percent_of_isUpperHex hhigh)
      exact hrest before after htail

/-! ## One byte -/

/-- A digit in upper case is read back. -/
theorem upperHexDigit_spec {n : Nat} (h : n < 16) :
    isUpperHex (upperHexDigit n) = true ∧ hexValue? (upperHexDigit n) = some n := by
  revert n
  decide

/-- The two digits of a byte spell it. -/
theorem codedByte?_digits (b : UInt8) :
    codedByte? (upperHexDigit (b.toNat / 16)) (upperHexDigit (b.toNat % 16)) = some b := by
  have hb : b.toNat < 256 := b.toNat_lt
  have hhigh : b.toNat / 16 < 16 := by omega
  have hlow : b.toNat % 16 < 16 := by omega
  have hsum : b.toNat / 16 * 16 + b.toNat % 16 = b.toNat := by omega
  rw [codedByte?, (upperHexDigit_spec hhigh).2, (upperHexDigit_spec hlow).2, Option.bind_some,
    Option.map_some, hsum, UInt8.ofNat_toNat]

/-- Characters that stand for themselves are of the alphabet and below 128. -/
theorem isFormChar_of_plain {c : Char}
    (h : (c.isAlphanum || c == '-' || c == '_' || c == '.') = true) :
    isFormChar c = true ∧ c.toNat < 128 ∧ c ≠ '+' ∧ c ≠ '%' := by
  simp only [Bool.or_eq_true, beq_iff_eq] at h
  rcases h with ((h | rfl) | rfl) | rfl
  · refine ⟨by rw [isFormChar, h, Bool.true_or], ?_, ?_, ?_⟩
    · have hcode := isAlphanum_iff.mp h
      omega
    · rintro rfl
      cases h
    · rintro rfl
      cases h
  all_goals decide

/-- **What one byte becomes**: a character of its own, a `+` for a space, or a
    code. -/
theorem encodeByte_cases (b : UInt8) :
    (∃ c, encodeByte b = [c] ∧ String.utf8EncodeChar c = [b] ∧ isFormChar c = true ∧ c ≠ '+' ∧
      c ≠ '%') ∨
    (encodeByte b = ['+'] ∧ b = 0x20) ∨
    ∃ high low, encodeByte b = ['%', high, low] ∧ codedByte? high low = some b ∧
      isUpperHex high = true ∧ isUpperHex low = true := by
  have hb : b.toNat < 256 := b.toNat_lt
  have hvalue : (Char.ofNat b.toNat).toNat = b.toNat := by
    have hvalid : b.toNat.isValidChar := .inl (by omega)
    rw [Char.ofNat, dif_pos hvalid]
    rfl
  rw [encodeByte]
  split
  · rename_i hplain
    obtain ⟨hform, hlt, hplus, hpercent⟩ := isFormChar_of_plain hplain
    refine .inl ⟨_, rfl, ?_, hform, hplus, hpercent⟩
    rw [utf8EncodeChar_of_lt hlt, hvalue, UInt8.ofNat_toNat]
  · split
    · rename_i hspace
      refine .inr (.inl ⟨rfl, UInt8.toNat_inj.mp ?_⟩)
      rw [← hvalue, beq_iff_eq.mp hspace]
      rfl
    · have hhigh := (upperHexDigit_spec (n := b.toNat / 16) (by omega)).1
      have hlow := (upperHexDigit_spec (n := b.toNat % 16) (by omega)).1
      exact .inr (.inr ⟨_, _, rfl, codedByte?_digits b, hhigh, hlow⟩)

/-- **One encoded byte is decoded**, and the decoder goes on with what follows. -/
theorem decodeForm_encodeByte (b : UInt8) (cs : List Char) :
    decodeForm (encodeByte b ++ cs) = b :: decodeForm cs := by
  rcases encodeByte_cases b with ⟨c, hb, hbyte, -, hplus, hpercent⟩ | ⟨hb, hspace⟩ |
    ⟨high, low, hb, hcode, -, -⟩
  · rw [hb, List.singleton_append, decodeForm_char hplus hpercent, hbyte]
    rfl
  · rw [hb, List.singleton_append, decodeForm_plus, hspace]
  · rw [hb]
    exact decodeForm_code hcode cs

theorem percentCoded_encodeByte (b : UInt8) {cs : List Char} (h : PercentCoded cs) :
    PercentCoded (encodeByte b ++ cs) := by
  rcases encodeByte_cases b with ⟨c, hb, -, -, -, hpercent⟩ | ⟨hb, -⟩ |
    ⟨high, low, hb, -, hhigh, hlow⟩
  · rw [hb]
    exact h.cons hpercent
  · rw [hb]
    exact h.cons (by decide)
  · rw [hb]
    exact h.code hhigh hlow

theorem isFormChar_of_isUpperHex {c : Char} (h : isUpperHex c = true) : isFormChar c = true := by
  have halphanum : c.isAlphanum = true := by
    rcases Bool.or_eq_true_iff.mp h with hdigit | hletter
    · exact isAlphanum_of_isDigit hdigit
    · obtain ⟨hfirst, hlast⟩ := Bool.and_eq_true_iff.mp hletter
      have hlow : 65 ≤ c.toNat := of_decide_eq_true hfirst
      have hhigh : c.toNat ≤ 70 := of_decide_eq_true hlast
      exact isAlphanum_iff.mpr (.inl (.inl ⟨hlow, Nat.le_trans hhigh (by decide)⟩))
  rw [isFormChar, halphanum, Bool.true_or]

theorem isFormChar_of_mem_encodeByte {b : UInt8} {c : Char} (h : c ∈ encodeByte b) :
    isFormChar c = true := by
  rcases encodeByte_cases b with ⟨d, hb, -, hform, -, -⟩ | ⟨hb, -⟩ |
    ⟨high, low, hb, -, hhigh, hlow⟩
  · rw [hb, List.mem_singleton] at h
    rw [h]
    exact hform
  · rw [hb, List.mem_singleton] at h
    rw [h]
    rfl
  · rw [hb] at h
    rcases List.mem_cons.mp h with rfl | h
    · rfl
    · rcases List.mem_cons.mp h with rfl | h
      · exact isFormChar_of_isUpperHex hhigh
      · rw [List.mem_singleton.mp h]
        exact isFormChar_of_isUpperHex hlow

/-! ## Texts -/

/-- **Encoded bytes are decoded** to themselves. -/
theorem decodeForm_encodeBytes (bs : List UInt8) : decodeForm (bs.flatMap encodeByte) = bs := by
  induction bs with
  | nil => rfl
  | cons b bs ih => rw [List.flatMap_cons, decodeForm_encodeByte, ih]

/-- Every percent sign of encoded bytes starts a code. -/
theorem percentCoded_encodeBytes (bs : List UInt8) : PercentCoded (bs.flatMap encodeByte) := by
  induction bs with
  | nil => exact percentCoded_nil
  | cons b bs ih =>
      rw [List.flatMap_cons]
      exact percentCoded_encodeByte b ih

theorem toList_encodeQuery (s : String) :
    (encodeQuery s).toList = (s.toList.flatMap String.utf8EncodeChar).flatMap encodeByte :=
  String.toList_ofList

/-- **A form decoder gives the bytes of the text back.** -/
theorem decodeForm_encodeQuery (s : String) :
    decodeForm (encodeQuery s).toList = s.toUTF8.data.toList := by
  rw [toList_encodeQuery, decodeForm_encodeBytes, ← bytes_toList]
  rfl

/-- No two texts are encoded alike. -/
theorem encodeQuery_inj {s t : String} : encodeQuery s = encodeQuery t ↔ s = t := by
  constructor
  · intro h
    have hbytes : s.toUTF8.data.toList = t.toUTF8.data.toList := by
      rw [← decodeForm_encodeQuery, ← decodeForm_encodeQuery, h]
    exact String.toByteArray_inj.mp (ByteArray.ext (Array.toList_inj.mp hbytes))
  · intro h
    rw [h]

end Html

namespace FilterRegistry

/-- **The filter for query values is undone by form decoding**: what it makes of
    a text is of the alphabet, every percent sign in it starts a code, a form
    decoder gives the bytes of the text back, and no other text becomes the same. -/
theorem decodeForm_urlencode (s : String) (arg : Option String) (context : Context) :
    ∃ t, builtIn.apply "urlencode" (.string s) arg context = .string t ∧
      (∀ c ∈ t.toList, Html.isFormChar c = true) ∧
      Html.PercentCoded t.toList ∧
      Html.decodeForm t.toList = s.toUTF8.data.toList ∧
      ∀ s', builtIn.apply "urlencode" (.string s') arg context = .string t ↔ s' = s := by
  have happly : ∀ s : String, builtIn.apply "urlencode" (.string s) arg context =
      .string (Html.encodeQuery s) := fun _ => rfl
  refine ⟨Html.encodeQuery s, happly s, ?_, ?_, Html.decodeForm_encodeQuery s, ?_⟩
  · intro c hc
    rw [Html.toList_encodeQuery] at hc
    obtain ⟨b, -, hb⟩ := List.mem_flatMap.mp hc
    exact Html.isFormChar_of_mem_encodeByte hb
  · rw [Html.toList_encodeQuery]
    exact Html.percentCoded_encodeBytes _
  · intro s'
    rw [happly, Json.string.injEq]
    exact Html.encodeQuery_inj

/-- A `+`, a percent sign and a letter of two bytes. -/
example : Html.encodeQuery "a +%é" = "a+%2B%25%C3%A9" := by
  decide +kernel

end FilterRegistry

end PageLoom
