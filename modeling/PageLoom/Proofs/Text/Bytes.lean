import Mathlib.Data.String.Basic

/-!
# Bytes — texts cut at byte offsets

    A text is stored as the UTF-8 bytes of its characters (`bytes`).  A cut is
    given by a byte offset and exists at the boundaries of characters only
    (`isSome_slice?_iff`).  Every byte of a character above ASCII is 128 or more,
    and only the first one tells how many there are; so a search for
    characters of ASCII that steps from byte to byte passes through other
    characters without stopping (`eq_of_passes`).
-/

namespace PageLoom.Text

open String

/-! ## The bytes of a text -/

/-- The bytes of a text. -/
def bytes (cs : List Char) : List UInt8 :=
  cs.flatMap utf8EncodeChar

/-- The bytes of the characters of a string are its bytes. -/
theorem bytes_toList (s : String) : bytes s.toList = s.toUTF8.data.toList := by
  show _ = s.toByteArray.data.toList
  rw [← String.utf8Encode_toList]
  exact List.toList_data_toByteArray.symm

theorem bytes_append (a b : List Char) : bytes (a ++ b) = bytes a ++ bytes b :=
  List.flatMap_append

theorem length_bytes (cs : List Char) : (bytes cs).length = utf8Len cs := by
  induction cs with
  | nil => rfl
  | cons c cs ih =>
      rw [bytes, List.flatMap_cons, List.length_append, length_utf8EncodeChar, utf8Len_cons,
        Nat.add_comm]
      exact congrArg (· + c.utf8Size) ih

theorem utf8Len_concat (a : List Char) (c : Char) :
    utf8Len (a ++ [c]) = utf8Len a + c.utf8Size := by
  rw [utf8Len_append, utf8Len_cons, utf8Len_nil, Nat.zero_add]

/-! ## Cuts -/

/-- **A text cut** after so many bytes; none inside a character and beyond the
    end. -/
def splitBytes? : Nat → List Char → Option (List Char × List Char)
  | 0, cs => some ([], cs)
  | _ + 1, [] => none
  | n + 1, c :: cs =>
      if c.utf8Size ≤ n + 1 then
        (splitBytes? (n + 1 - c.utf8Size) cs).map fun (before, after) => (c :: before, after)
      else none

/-- The text between two byte offsets. -/
def slice? (text : List Char) (start stop : Nat) : Option (List Char) := do
  let (before, _) ← splitBytes? stop text
  let (_, piece) ← splitBytes? start before
  return piece

/-- The text from a byte offset on. -/
def sliceFrom? (text : List Char) (start : Nat) : Option (List Char) :=
  slice? text start (bytes text).length

/-- The text up to a byte offset. -/
def sliceTo? (text : List Char) (stop : Nat) : Option (List Char) :=
  slice? text 0 stop

/-- **A split at a byte offset** succeeds exactly at the boundaries of characters. -/
theorem splitBytes?_eq_some_iff {n : Nat} {cs a b : List Char} :
    splitBytes? n cs = some (a, b) ↔ cs = a ++ b ∧ utf8Len a = n := by
  induction cs generalizing n a with
  | nil =>
      cases n with
      | zero =>
          rw [splitBytes?, Option.some.injEq, Prod.mk.injEq, utf8Len_eq_zero]
          constructor
          · rintro ⟨rfl, rfl⟩
            exact ⟨rfl, rfl⟩
          · rintro ⟨hnil, rfl⟩
            exact ⟨rfl, hnil⟩
      | succ n =>
          constructor
          · intro h
            cases h
          · rintro ⟨hnil, hlen⟩
            rw [(List.append_eq_nil_iff.mp hnil.symm).1] at hlen
            cases hlen
  | cons c cs ih =>
      cases n with
      | zero =>
          rw [splitBytes?, Option.some.injEq, Prod.mk.injEq, utf8Len_eq_zero]
          constructor
          · rintro ⟨rfl, rfl⟩
            exact ⟨rfl, rfl⟩
          · rintro ⟨hcs, rfl⟩
            exact ⟨rfl, hcs⟩
      | succ n =>
          rw [splitBytes?]
          constructor
          · intro h
            split at h
            · rename_i hle
              obtain ⟨⟨before, after⟩, hsplit, hpair⟩ := Option.map_eq_some_iff.mp h
              cases hpair
              obtain ⟨rfl, hlen⟩ := ih.mp hsplit
              refine ⟨rfl, ?_⟩
              rw [utf8Len_cons, hlen]
              omega
            · cases h
          · rintro ⟨hcs, hlen⟩
            cases a with
            | nil => cases hlen
            | cons d a =>
                obtain ⟨rfl, hrest⟩ := List.cons.inj hcs
                rw [utf8Len_cons] at hlen
                rw [if_pos (by omega), ih.mpr ⟨hrest, by omega⟩]
                rfl

theorem splitBytes?_append (a b : List Char) : splitBytes? (utf8Len a) (a ++ b) = some (a, b) :=
  splitBytes?_eq_some_iff.mpr ⟨rfl, rfl⟩

/-- **A slice between byte offsets** succeeds exactly between boundaries, the first
    of which is not after the second. -/
theorem slice?_eq_some_iff {text piece : List Char} {start stop : Nat} :
    slice? text start stop = some piece ↔
      ∃ before after, text = before ++ piece ++ after ∧ utf8Len before = start ∧
        utf8Len (before ++ piece) = stop := by
  constructor
  · intro h
    obtain ⟨⟨most, after⟩, hstop, h⟩ := Option.bind_eq_some_iff.mp h
    obtain ⟨⟨before, rest⟩, hstart, h⟩ := Option.bind_eq_some_iff.mp h
    cases h
    obtain ⟨rfl, rfl⟩ := splitBytes?_eq_some_iff.mp hstop
    obtain ⟨rfl, rfl⟩ := splitBytes?_eq_some_iff.mp hstart
    exact ⟨before, after, rfl, rfl, rfl⟩
  · rintro ⟨before, after, rfl, rfl, rfl⟩
    rw [slice?, splitBytes?_append]
    show (splitBytes? (utf8Len before) (before ++ piece)).bind _ = _
    rw [splitBytes?_append]
    rfl

/-- A slice whose ends are known to be boundaries. -/
theorem slice?_append (a b c : List Char) :
    slice? (a ++ b ++ c) (utf8Len a) (utf8Len (a ++ b)) = some b :=
  slice?_eq_some_iff.mpr ⟨a, c, rfl, rfl, rfl⟩

theorem sliceFrom?_append (a b : List Char) : sliceFrom? (a ++ b) (utf8Len a) = some b := by
  rw [sliceFrom?, length_bytes]
  exact slice?_eq_some_iff.mpr ⟨a, [], (List.append_nil _).symm, rfl, rfl⟩

theorem sliceTo?_append (a b : List Char) : sliceTo? (a ++ b) (utf8Len a) = some a :=
  slice?_eq_some_iff.mpr ⟨[], b, rfl, rfl, rfl⟩

/-- Something is cut off before a later offset. -/
theorem length_of_sliceFrom? {text piece : List Char} {start : Nat}
    (h : sliceFrom? text (start + 1) = some piece) : piece.length < text.length := by
  obtain ⟨before, after, rfl, hbefore, -⟩ := slice?_eq_some_iff.mp h
  cases before with
  | nil => cases hbefore
  | cons c before =>
      simp only [List.length_append, List.length_cons]
      omega

/-- **A cut exists at the boundaries** of characters. -/
theorem isSome_splitBytes?_iff {s : String} {n : Nat} :
    (splitBytes? n s.toList).isSome = true ↔ Pos.Raw.IsValid s ⟨n⟩ := by
  rw [Pos.Raw.isValid_iff_exists_append, Option.isSome_iff_exists]
  constructor
  · rintro ⟨⟨a, b⟩, h⟩
    obtain ⟨htext, hlen⟩ := splitBytes?_eq_some_iff.mp h
    refine ⟨.ofList a, .ofList b, ?_, ?_⟩
    · rw [← ofList_append, ← htext, ofList_toList]
    · rw [Pos.Raw.ext_iff, byteIdx_rawEndPos, ← utf8Len_toList, toList_ofList, hlen]
  · rintro ⟨a, b, rfl, hlen⟩
    refine ⟨(a.toList, b.toList), splitBytes?_eq_some_iff.mpr ⟨toList_append, ?_⟩⟩
    rw [utf8Len_toList]
    exact (congrArg Pos.Raw.byteIdx hlen).symm

/-- Of two texts that one text starts with, the one of fewer bytes starts the
    other. -/
theorem exists_append_of_utf8Len_le {a b c d : List Char} (h : a ++ b = c ++ d)
    (hle : utf8Len a ≤ utf8Len c) : ∃ e, c = a ++ e := by
  rcases List.append_eq_append_iff.mp h with ⟨e, hc, -⟩ | ⟨e, rfl, -⟩
  · exact ⟨e, hc⟩
  · rw [utf8Len_append] at hle
    have he : e = [] := utf8Len_eq_zero.mp (by omega)
    exact ⟨[], by rw [he, List.append_nil, List.append_nil]⟩

/-- **A slice exists between boundaries** of characters, the first not after the
    second. -/
theorem isSome_slice?_iff {s : String} {start stop : Nat} :
    (slice? s.toList start stop).isSome = true ↔
      start ≤ stop ∧ Pos.Raw.IsValid s ⟨start⟩ ∧ Pos.Raw.IsValid s ⟨stop⟩ := by
  simp only [← isSome_splitBytes?_iff, Option.isSome_iff_exists]
  constructor
  · rintro ⟨piece, h⟩
    obtain ⟨before, after, htext, rfl, rfl⟩ := slice?_eq_some_iff.mp h
    refine ⟨?_, ⟨_, splitBytes?_eq_some_iff.mpr ⟨htext.trans (List.append_assoc ..), rfl⟩⟩,
      ⟨_, splitBytes?_eq_some_iff.mpr ⟨htext, rfl⟩⟩⟩
    rw [utf8Len_append]
    exact Nat.le_add_right ..
  · rintro ⟨hle, ⟨⟨before, rest⟩, hstart⟩, ⟨most, after⟩, hstop⟩
    obtain ⟨htext, rfl⟩ := splitBytes?_eq_some_iff.mp hstart
    obtain ⟨htext', rfl⟩ := splitBytes?_eq_some_iff.mp hstop
    obtain ⟨piece, rfl⟩ := exists_append_of_utf8Len_le (htext.symm.trans htext') hle
    exact ⟨piece, slice?_eq_some_iff.mpr ⟨before, after, htext', rfl, rfl⟩⟩

/-! ## The bytes of a character -/

/-- A character of ASCII is one byte. -/
theorem utf8EncodeChar_of_lt {c : Char} (h : c.toNat < 128) :
    utf8EncodeChar c = [.ofNat c.toNat] :=
  if_pos (Nat.le_of_lt_succ h)

theorem utf8Len_concat_of_lt (a : List Char) {c : Char} (h : c.toNat < 128) :
    utf8Len (a ++ [c]) = utf8Len a + 1 := by
  rw [utf8Len_concat, ← length_utf8EncodeChar, utf8EncodeChar_of_lt h]
  rfl

/-- The number of bytes that a first byte tells. -/
def bytesOf (first : UInt8) : Nat :=
  if 0xF0 ≤ first then 4
  else if 0xE0 ≤ first then 3
  else if 0xC0 ≤ first then 2
  else 1

theorem bytesOf_pos (first : UInt8) : 0 < bytesOf first := by
  rw [bytesOf]
  repeat' split
  all_goals decide

theorem bytesOf_ofNat {n : Nat} (h : n < 256) :
    bytesOf (.ofNat n) = if 0xF0 ≤ n then 4 else if 0xE0 ≤ n then 3 else if 0xC0 ≤ n then 2 else 1 := by
  have hn : (UInt8.ofNat n).toNat = n := (UInt8.toNat_ofNat' ..).trans (Nat.mod_eq_of_lt h)
  simp only [bytesOf, UInt8.le_iff_toNat_le, hn]
  rfl

/-- **The bytes of a character**: the first one tells how many there are, and
    above ASCII all of them are 128 or more. -/
theorem exists_utf8EncodeChar (c : Char) :
    ∃ first more, utf8EncodeChar c = first :: more ∧ bytesOf first = c.utf8Size ∧
      (∀ b ∈ more, 128 ≤ b.toNat) ∧
      (c.toNat < 128 ∧ first = .ofNat c.toNat ∨ 128 ≤ c.toNat ∧ 128 ≤ first.toNat) := by
  have hmore : ∀ {n : Nat} {bs : List UInt8}, (∀ b ∈ bs, 128 ≤ b.toNat) →
      ∀ b ∈ .ofNat (n % 64 + 128) :: bs, 128 ≤ b.toNat := by
    intro n bs hbs
    refine List.forall_mem_cons.mpr ⟨?_, hbs⟩
    rw [UInt8.toNat_ofNat']
    omega
  have hfirst : ∀ {n : Nat}, 128 ≤ n → n < 256 → 128 ≤ (UInt8.ofNat n).toNat := by
    intro n hle hlt
    rwa [UInt8.toNat_ofNat', Nat.mod_eq_of_lt hlt]
  have hcode : c.val.toNat = c.toNat := rfl
  have hlength := length_utf8EncodeChar c
  rw [utf8EncodeChar.eq_1, hcode] at hlength ⊢
  -- by the number of bytes
  split at hlength
  · rename_i h1
    rw [if_pos h1]
    refine ⟨_, _, rfl, ?_, List.forall_mem_nil _, .inl ⟨by omega, rfl⟩⟩
    rw [← hlength, bytesOf_ofNat (by omega), if_neg (by omega), if_neg (by omega),
      if_neg (by omega)]
    rfl
  rename_i h1
  rw [if_neg h1]
  split at hlength
  · rename_i h2
    rw [if_pos h2]
    refine ⟨_, _, rfl, ?_, ?_, .inr ⟨by omega, hfirst (by omega) (by omega)⟩⟩
    · rw [← hlength, bytesOf_ofNat (by omega), if_neg (by omega), if_neg (by omega),
        if_pos (by omega)]
      rfl
    · exact hmore (List.forall_mem_nil _)
  rename_i h2
  rw [if_neg h2]
  split at hlength
  · rename_i h3
    rw [if_pos h3]
    refine ⟨_, _, rfl, ?_, ?_, .inr ⟨by omega, hfirst (by omega) (by omega)⟩⟩
    · rw [← hlength, bytesOf_ofNat (by omega), if_neg (by omega), if_pos (by omega)]
      rfl
    · exact hmore (hmore (List.forall_mem_nil _))
  · rename_i h3
    rw [if_neg h3]
    refine ⟨_, _, rfl, ?_, ?_, .inr ⟨by omega, hfirst (by omega) (by omega)⟩⟩
    · rw [← hlength, bytesOf_ofNat (by omega), if_pos (by omega)]
      rfl
    · exact hmore (hmore (hmore (List.forall_mem_nil _)))

/-! ## Bytes at boundaries -/

/-- A byte above ASCII is no character of ASCII. -/
theorem ne_of_high {b : UInt8} (hb : 128 ≤ b.toNat) {x : Char} (hx : x.toNat < 128) :
    b ≠ x.toUInt8 := by
  rintro rfl
  have hcode : x.toUInt8.toNat = x.toNat % 256 := UInt32.toNat_toUInt8 ..
  omega

/-- The first byte of a character. -/
def firstByte (c : Char) : UInt8 :=
  (utf8EncodeChar c).head utf8EncodeChar_ne_nil

/-- The first byte of a character tells how many there are. -/
theorem bytesOf_firstByte (c : Char) : bytesOf (firstByte c) = c.utf8Size := by
  obtain ⟨first, more, hbytes, hcount, -, -⟩ := exists_utf8EncodeChar c
  simp only [firstByte, hbytes, List.head_cons, hcount]

/-- **A first byte tells a character of ASCII.** -/
theorem firstByte_eq_iff {c x : Char} (hx : x.toNat < 128) :
    firstByte c = x.toUInt8 ↔ c = x := by
  obtain ⟨first, more, hbytes, -, -, hfirst⟩ := exists_utf8EncodeChar c
  have heq : firstByte c = first := by
    simp only [firstByte, hbytes, List.head_cons]
  rw [heq]
  rcases hfirst with ⟨hc, rfl⟩ | ⟨hc, hhigh⟩
  · have hcode : x.toUInt8.toNat = x.toNat := by
      refine (UInt32.toNat_toUInt8 ..).trans (Nat.mod_eq_of_lt ?_)
      exact Nat.lt_trans hx (by decide)
    rw [← UInt8.toNat_inj, hcode, UInt8.toNat_ofNat', Nat.mod_eq_of_lt (by omega)]
    exact Char.toNat_inj
  · refine iff_of_false (ne_of_high hhigh hx) ?_
    rintro rfl
    omega

/-- A byte of ASCII, read as a character. -/
theorem ofUInt8_firstByte {c : Char} (h : c.toNat < 128) : Char.ofUInt8 (firstByte c) = c := by
  rw [(firstByte_eq_iff h).mpr rfl]
  refine Char.toNat_inj.mp ?_
  have hcode : c.toUInt8.toNat = c.toNat % 256 := UInt32.toNat_toUInt8 ..
  show c.toUInt8.toUInt32.toNat = c.toNat
  rw [UInt8.toNat_toUInt32, hcode]
  omega

theorem bytes_getElem?_end (a : List Char) : (bytes a)[utf8Len a]? = none := by
  rw [List.getElem?_eq_none_iff, length_bytes]

/-- The bytes from a boundary on. -/
theorem bytes_getElem?_add (a cs : List Char) (k : Nat) :
    (bytes (a ++ cs))[utf8Len a + k]? = (bytes cs)[k]? := by
  rw [bytes_append, ← length_bytes, List.getElem?_append_right (Nat.le_add_right ..),
    Nat.add_sub_cancel_left]

/-- **At a boundary** stands the first byte of the next character. -/
theorem bytes_getElem?_boundary (a : List Char) (c : Char) (b : List Char) :
    (bytes (a ++ c :: b))[utf8Len a]? = some (firstByte c) := by
  obtain ⟨first, more, hbytes, -, -, -⟩ := exists_utf8EncodeChar c
  refine (bytes_getElem?_add a (c :: b) 0).trans ?_
  simp only [bytes, firstByte, List.flatMap_cons, hbytes, List.cons_append, List.head_cons,
    List.getElem?_cons_zero]

/-- **Inside a character** all bytes are above ASCII. -/
theorem bytes_getElem?_inside {c : Char} {k : Nat} (hpos : 0 < k) (hlt : k < c.utf8Size)
    (a b : List Char) :
    ∃ byte, (bytes (a ++ c :: b))[utf8Len a + k]? = some byte ∧ 128 ≤ byte.toNat := by
  obtain ⟨first, more, hbytes, -, hmore, -⟩ := exists_utf8EncodeChar c
  obtain ⟨j, rfl⟩ := Nat.exists_eq_add_of_lt hpos
  have hj : j < more.length := by
    rw [← length_utf8EncodeChar, hbytes, List.length_cons] at hlt
    omega
  refine ⟨more[j], ?_, hmore _ (List.getElem_mem hj)⟩
  rw [bytes_getElem?_add, bytes, List.flatMap_cons, hbytes, Nat.zero_add, List.cons_append,
    List.getElem?_cons_succ, List.getElem?_append_left hj, List.getElem?_eq_getElem hj]

/-- **Passing through a character**: what does not change from a byte above
    ASCII to the next one is the same at the end of a character as one byte
    after its start. -/
theorem eq_of_passes {α : Type} {f : Nat → α} {text : List Char}
    (hf : ∀ i byte, (bytes text)[i]? = some byte → 128 ≤ byte.toNat → f i = f (i + 1))
    {a b : List Char} {c : Char} (htext : text = a ++ c :: b) :
    f (utf8Len a + 1) = f (utf8Len (a ++ [c])) := by
  subst htext
  -- one byte after the other, up to the end of the character
  have hpass : ∀ k, 1 ≤ k → k ≤ c.utf8Size → f (utf8Len a + 1) = f (utf8Len a + k) := by
    intro k hpos
    induction k, hpos using Nat.le_induction with
    | base => exact fun _ => rfl
    | succ k hpos ih =>
        intro hle
        obtain ⟨byte, hbyte, hhigh⟩ := bytes_getElem?_inside hpos hle a b
        exact (ih (Nat.le_of_succ_le hle)).trans (hf _ byte hbyte hhigh)
  rw [utf8Len_concat]
  exact hpass _ c.utf8Size_pos (Nat.le_refl _)

end PageLoom.Text
