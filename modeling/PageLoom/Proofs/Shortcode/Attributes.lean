import Mathlib.Data.String.Basic
import PageLoom.Proofs.Assoc
import PageLoom.Proofs.Shortcode.Openers
import PageLoom.Proofs.Text.Letters
import PageLoom.Proofs.Text.Numerals
import PageLoom.Shortcode.Attributes

/-!
# Written attributes — a list that is read back

    An attribute is written as `key="value"`, a value alone as `"value"`.
    The reader ends an attribute at its closing quote, whatever the value
    holds and whatever follows (`attributeAt_text`), so it finds the
    attributes of a written list one after the other
    (`attributesFrom_text`).

    The table of attributes is the list put in order, the values alone under
    their numbers (`tableFrom_eq`).  A key that is no number is none of
    those, so nothing is replaced there and the table holds exactly what was
    written (`attributesOf_text`).
-/

namespace PageLoom.Shortcode

open Text

/-! ## Writing -/

/-- Characters of a key in lower case. -/
def isKeyChar (c : Char) : Bool :=
  c.isLower || c.isDigit || c == '_' || c == '-'

/-- **An attribute as it is written.** -/
def Attribute.text : Attribute → List Char
  | .named key value => key ++ '=' :: '"' :: (value ++ ['"'])
  | .positional value => '"' :: (value ++ ['"'])

/-- **Attributes that can be written**: a key is in lower case and no number, and
    no value holds the quote. -/
def Attribute.Writable : Attribute → Prop
  | .named key value =>
      key ≠ [] ∧ key.all isKeyChar = true ∧ key.all Char.isDigit = false ∧ '"' ∉ value
  | .positional value => '"' ∉ value

instance : (a : Attribute) → Decidable a.Writable
  | .named key value =>
      inferInstanceAs (Decidable (key ≠ [] ∧ key.all isKeyChar = true ∧
        key.all Char.isDigit = false ∧ '"' ∉ value))
  | .positional value => inferInstanceAs (Decidable ('"' ∉ value))

/-- The key of an attribute that has one. -/
def Attribute.key? : Attribute → Option (List Char)
  | .named key _ => some key
  | .positional _ => none

/-- The value of an attribute without a key. -/
def Attribute.alone? : Attribute → Option (List Char)
  | .named _ _ => none
  | .positional value => some value

/-- **A list of attributes as it is written**: each with the white space before
    it, and white space at the end. -/
structure Listing where
  entries : List (List Char × Attribute)
  last : List Char

namespace Listing

/-- The attributes of a list, in order. -/
def attributes (l : Listing) : List Attribute :=
  l.entries.map Prod.snd

/-- The text of a list. -/
def text (l : Listing) : List Char :=
  l.entries.foldr (fun (gap, a) rest => gap ++ (a.text ++ rest)) l.last

/-- **Well-formed lists**: white space between attributes that can be written,
    and no key twice.  A closing quote ends an attribute, so the white space
    may be absent. -/
structure WellFormed (l : Listing) : Prop where
  gaps : ∀ entry ∈ l.entries, AllBlank entry.1
  last : AllBlank l.last
  writable : ∀ a ∈ l.attributes, a.Writable
  distinct : (l.attributes.filterMap Attribute.key?).Nodup

end Listing

/-! ## One attribute -/

/-- Characters of a key are those of names, and in lower case. -/
theorem isKeyChar_spec {c : Char} (h : isKeyChar c = true) :
    isNameChar c = true ∧ c.toLower = c := by
  simp only [isKeyChar, Bool.or_eq_true, beq_iff_eq] at h
  rcases h with ((h | h) | rfl) | rfl
  · exact ⟨by simp [isNameChar, isAlphanum_of_isLower h], toLower_of_isLower h⟩
  · exact ⟨by simp [isNameChar, isAlphanum_of_isDigit h], toLower_of_isDigit h⟩
  · exact ⟨rfl, rfl⟩
  · exact ⟨rfl, rfl⟩

theorem quoted?_text {value : List Char} (h : '"' ∉ value) (rest : List Char) :
    quoted? ('"' :: (value ++ '"' :: rest)) = some (value, rest) := by
  show cutAtChar '"' (value ++ '"' :: rest) = _
  exact cutAtChar_eq_some_iff.mpr ⟨rfl, h⟩

/-- A key ends at its equals sign, and a value in quotes stands there. -/
theorem named?_text {key value : List Char} (hne : key ≠ [])
    (hkey : ∀ c ∈ key, isNameChar c = true) (hvalue : '"' ∉ value) (rest : List Char) :
    named? (key ++ '=' :: '"' :: (value ++ '"' :: rest)) = some (.named key value, rest) := by
  have htake : (key ++ '=' :: '"' :: (value ++ '"' :: rest)).takeWhile isNameChar = key := by
    rw [List.takeWhile_append_of_pos hkey, List.takeWhile_cons_of_neg (by decide),
      List.append_nil]
  have hdrop : (key ++ '=' :: '"' :: (value ++ '"' :: rest)).dropWhile isNameChar =
      '=' :: '"' :: (value ++ '"' :: rest) := by
    rw [List.dropWhile_append_of_pos hkey, List.dropWhile_cons_of_neg (by decide)]
  have hempty : key.isEmpty = false := List.isEmpty_eq_false_iff.mpr hne
  rw [named?]
  simp only [htake, hdrop, hempty]
  show ((quoted? ('"' :: (value ++ '"' :: rest))).or _).map _ = _
  rw [quoted?_text hvalue]
  rfl

/-- **A written attribute is read**, and the reader goes on after its quote. -/
theorem attributeAt_text {a : Attribute} (h : a.Writable) (rest : List Char) :
    attributeAt (a.text ++ rest) = (a, rest) := by
  cases a with
  | named key value =>
      obtain ⟨hne, hkey, -, hvalue⟩ := h
      have htext : (Attribute.named key value).text ++ rest =
          key ++ '=' :: '"' :: (value ++ '"' :: rest) := by
        simp [Attribute.text]
      have hname : ∀ c ∈ key, isNameChar c = true := fun c hc =>
        (isKeyChar_spec (List.all_eq_true.mp hkey c hc)).1
      rw [htext, attributeAt, named?_text hne hname hvalue]
  | positional value =>
      have htext : (Attribute.positional value).text ++ rest = '"' :: (value ++ '"' :: rest) := by
        simp [Attribute.text]
      have hnamed : named? ('"' :: (value ++ '"' :: rest)) = none := rfl
      rw [htext, attributeAt, hnamed, quoted?_text h]

/-- A written attribute starts with no white space. -/
theorem Attribute.Writable.exists_head {a : Attribute} (h : a.Writable) :
    ∃ c cs, a.text = c :: cs ∧ isBlank c = false := by
  cases a with
  | named key value =>
      obtain ⟨hne, hkey, -⟩ := h
      obtain ⟨c, cs, rfl⟩ := List.exists_cons_of_ne_nil hne
      refine ⟨c, _, rfl, Bool.eq_false_iff.mpr fun hblank => ?_⟩
      have hname := (isKeyChar_spec (List.all_eq_true.mp hkey c List.mem_cons_self)).1
      rw [not_isNameChar_of_isBlank hblank] at hname
      cases hname
  | positional value => exact ⟨'"', _, rfl, rfl⟩

/-! ## The attributes of a text -/

/-- An attribute is read after its white space. -/
theorem attributesFrom_step {gap : List Char} {a : Attribute} (hgap : AllBlank gap)
    (ha : a.Writable) (fuel : Nat) (rest : List Char) :
    attributesFrom (fuel + 1) (gap ++ (a.text ++ rest)) = a :: attributesFrom fuel rest := by
  obtain ⟨c, cs, htext, hc⟩ := ha.exists_head
  have hstart : trimStart (gap ++ (a.text ++ rest)) = c :: (cs ++ rest) := by
    rw [trimStart_append hgap, htext, List.cons_append, trimStart_of_head]
    rintro d ⟨rfl⟩
    exact hc
  have hread : attributeAt (c :: (cs ++ rest)) = (a, rest) := by
    rw [← List.cons_append, ← htext]
    exact attributeAt_text ha rest
  rw [attributesFrom, hstart]
  dsimp only
  rw [hread]

/-- White space holds no attribute. -/
theorem attributesFrom_allBlank {last : List Char} (h : AllBlank last) (fuel : Nat) :
    attributesFrom fuel last = [] := by
  cases fuel with
  | zero => rfl
  | succ fuel =>
      have htrim : trimStart last = [] := by
        have hnil := trimStart_append h []
        rwa [List.append_nil] at hnil
      rw [attributesFrom, htrim]

/-- Every attribute is a character of the text at least. -/
theorem length_entries_le {l : Listing} (h : ∀ a ∈ l.attributes, a.Writable) :
    l.entries.length ≤ l.text.length := by
  obtain ⟨entries, last⟩ := l
  induction entries with
  | nil => exact Nat.zero_le _
  | cons entry entries ih =>
      obtain ⟨gap, a⟩ := entry
      obtain ⟨ha, has⟩ := List.forall_mem_cons.mp h
      obtain ⟨c, cs, htext, -⟩ := ha.exists_head
      have hrest : entries.length ≤ (Listing.text ⟨entries, last⟩).length := ih has
      show entries.length + 1 ≤ (gap ++ (a.text ++ Listing.text ⟨entries, last⟩)).length
      simp only [htext, List.length_append, List.length_cons]
      omega

/-- **The attributes of a written list are read one after the other.** -/
theorem attributesFrom_text {l : Listing} (h : l.WellFormed) {fuel : Nat}
    (hfuel : l.entries.length ≤ fuel) : attributesFrom fuel l.text = l.attributes := by
  obtain ⟨hgaps, hlast, hwritable, -⟩ := h
  obtain ⟨entries, last⟩ := l
  induction entries generalizing fuel with
  | nil => exact attributesFrom_allBlank hlast fuel
  | cons entry entries ih =>
      obtain ⟨gap, a⟩ := entry
      obtain ⟨hgap, hgaps⟩ := List.forall_mem_cons.mp hgaps
      obtain ⟨ha, hwritable⟩ := List.forall_mem_cons.mp hwritable
      obtain ⟨fuel, rfl⟩ := Nat.exists_eq_succ_of_ne_zero (Nat.ne_zero_of_lt hfuel)
      have hrest := ih (Nat.le_of_succ_le_succ hfuel) hgaps hlast hwritable
      show attributesFrom (fuel + 1) (gap ++ (a.text ++ Listing.text ⟨entries, last⟩)) = _
      rw [attributesFrom_step hgap ha, hrest]
      rfl

/-! ## The table -/

/-- The attributes with their keys, the values alone under the numbers from
    `position`. -/
def numberedFrom (position : Nat) : List Attribute → List (String × String)
  | [] => []
  | .named key value :: rest =>
      (String.ofList key, String.ofList value) :: numberedFrom position rest
  | .positional value :: rest =>
      (toString position, String.ofList value) :: numberedFrom (position + 1) rest

/-- The table is the list put in order. -/
theorem tableFrom_eq {as : List Attribute} (h : ∀ a ∈ as, a.Writable) (position : Nat)
    (table : Attributes) :
    tableFrom position table as =
      (numberedFrom position as).foldl (fun table pair => Assoc.insert pair.1 pair.2 table)
        table := by
  induction as generalizing position table with
  | nil => rfl
  | cons a as ih =>
      obtain ⟨ha, has⟩ := List.forall_mem_cons.mp h
      cases a with
      | named key value =>
          have hlower : lowerAscii key = key := by
            rw [lowerAscii, List.map_congr_left fun c hc =>
              (isKeyChar_spec (List.all_eq_true.mp ha.2.1 c hc)).2, List.map_id']
          rw [tableFrom, hlower, ih has]
          rfl
      | positional value =>
          rw [tableFrom, ih has]
          rfl

theorem eq_ofList_iff {s : String} {cs : List Char} : s = String.ofList cs ↔ s.toList = cs := by
  rw [← String.toList_inj, String.toList_ofList]

/-- **What a numbered list holds.** -/
theorem mem_numberedFrom_iff {as : List Attribute} (position : Nat) {key value : String} :
    (key, value) ∈ numberedFrom position as ↔
      .named key.toList value.toList ∈ as ∨
        ∃ i : Nat, (as.filterMap Attribute.alone?)[i]? = some value.toList ∧
          key = toString (position + i) := by
  induction as generalizing position with
  | nil => simp [numberedFrom]
  | cons a as ih =>
      cases a with
      | named k v =>
          have hfilter : (Attribute.named k v :: as).filterMap Attribute.alone? =
              as.filterMap Attribute.alone? := rfl
          rw [numberedFrom, List.mem_cons, ih position, List.mem_cons, hfilter, Prod.mk.injEq,
            Attribute.named.injEq, eq_ofList_iff, eq_ofList_iff, or_assoc]
      | positional v =>
          have hfilter : (Attribute.positional v :: as).filterMap Attribute.alone? =
              v :: as.filterMap Attribute.alone? := rfl
          rw [numberedFrom, List.mem_cons, ih (position + 1), List.mem_cons, hfilter, Prod.mk.injEq,
            eq_ofList_iff]
          constructor
          · rintro (⟨hkey, hvalue⟩ | hnamed | ⟨i, hi, hkey⟩)
            · exact .inr ⟨0, by rw [hvalue]; rfl, hkey⟩
            · exact .inl (.inr hnamed)
            · refine .inr ⟨i + 1, hi, ?_⟩
              rw [hkey, Nat.add_right_comm, Nat.add_assoc]
          · rintro ((hnamed | hnamed) | ⟨i, hi, hkey⟩)
            · cases hnamed
            · exact .inr (.inl hnamed)
            · cases i with
              | zero => exact .inl ⟨hkey, (Option.some.inj hi).symm⟩
              | succ i =>
                  refine .inr (.inr ⟨i, hi, ?_⟩)
                  rw [hkey, Nat.add_right_comm, Nat.add_assoc]

/-- A key that is no number is not among the numbers. -/
theorem toList_toString_ne {key : List Char} (h : key.all Char.isDigit = false) (n : Nat) :
    (toString n).toList ≠ key := by
  rintro rfl
  have hdigits : (toString n).toList.all Char.isDigit = true := by
    rw [Nat.toString_eq_repr, Nat.toList_repr]
    exact List.all_eq_true.mpr fun c => isDigit_of_mem_toDigits
  rw [hdigits] at h
  cases h

/-- No key is twice in a numbered list. -/
theorem nodup_numberedFrom {as : List Attribute} (hwritable : ∀ a ∈ as, a.Writable)
    (distinct : (as.filterMap Attribute.key?).Nodup) (position : Nat) :
    ((numberedFrom position as).map Prod.fst).Nodup := by
  induction as generalizing position with
  | nil => exact List.nodup_nil
  | cons a as ih =>
      obtain ⟨ha, has⟩ := List.forall_mem_cons.mp hwritable
      cases a with
      | named k v =>
          obtain ⟨hnew, hrest⟩ := List.nodup_cons.mp distinct
          refine List.nodup_cons.mpr ⟨fun hmem => ?_, ih has hrest position⟩
          obtain ⟨⟨key, value⟩, hpair, hkey⟩ := List.mem_map.mp hmem
          have hlist : key.toList = k := by
            rw [show key = String.ofList k from hkey, String.toList_ofList]
          rcases (mem_numberedFrom_iff position).mp hpair with hnamed | ⟨i, -, hnumber⟩
          · refine hnew (List.mem_filterMap.mpr ⟨_, hnamed, ?_⟩)
            rw [← hlist]
            rfl
          · rw [hnumber] at hlist
            exact toList_toString_ne ha.2.2.1 _ hlist
      | positional v =>
          refine List.nodup_cons.mpr ⟨fun hmem => ?_, ih has distinct (position + 1)⟩
          obtain ⟨⟨key, value⟩, hpair, hkey⟩ := List.mem_map.mp hmem
          rcases (mem_numberedFrom_iff (position + 1)).mp hpair with hnamed | ⟨i, -, hnumber⟩
          · have hkeys := (has _ hnamed).2.2.1
            rw [show key = toString position from hkey] at hkeys
            exact toList_toString_ne hkeys position rfl
          · -- a later number is another
            have hnumbers : toString position = toString (position + 1 + i) :=
              hkey.symm.trans hnumber
            rw [Nat.toString_eq_repr, Nat.toString_eq_repr, Nat.repr_eq_ofList_toDigits,
              Nat.repr_eq_ofList_toDigits] at hnumbers
            have := toDigits_inj (String.ofList_inj.mp hnumbers)
            omega

/-- **Written attributes are read back**: every named value under its key, the
    values alone under `0`, `1` and so on in their order, and nothing else. -/
theorem attributesOf_text {l : Listing} (h : l.WellFormed) :
    Assoc.Sorted (attributesOf l.text) ∧
      ∀ key value, (key, value) ∈ attributesOf l.text ↔
        .named key.toList value.toList ∈ l.attributes ∨
          ∃ i : Nat, (l.attributes.filterMap Attribute.alone?)[i]? = some value.toList ∧
            key = toString i := by
  have htable : attributesOf l.text = Assoc.ofList (numberedFrom 0 l.attributes) := by
    rw [attributesOf, attributesFrom_text h (length_entries_le h.writable)]
    exact tableFrom_eq h.writable 0 []
  rw [htable]
  refine ⟨Assoc.Sorted.ofList _, fun key value => ?_⟩
  rw [Assoc.mem_ofList_iff (nodup_numberedFrom h.writable h.distinct 0), mem_numberedFrom_iff 0]
  simp only [Nat.zero_add]

/-- Values that look like other attributes, and a key that starts with a digit. -/
theorem attributesOf_text_mixed :
    let l : Listing :=
      ⟨[([], .positional "a=b".toList), ([' '], .named "0-x".toList "c='d' 7".toList),
        (['\t', '\n'], .positional [])], [' ']⟩
    let written := "\"a=b\" 0-x=\"c='d' 7\"\t\n\"\" "
    l.WellFormed ∧ l.text = written.toList ∧
      ("0", "a=b") ∈ attributesOf written.toList ∧
      ("0-x", "c='d' 7") ∈ attributesOf written.toList ∧
      ("1", "") ∈ attributesOf written.toList ∧
      ∀ value, ("c", value) ∉ attributesOf written.toList := by
  intro l written
  have hwell : l.WellFormed := ⟨by decide, by decide, by decide, by decide⟩
  have htext : l.text = written.toList := by decide
  obtain ⟨-, hread⟩ := attributesOf_text hwell
  rw [htext] at hread
  refine ⟨hwell, htext, (hread _ _).mpr (.inr ⟨0, by decide, rfl⟩),
    (hread _ _).mpr (.inl (by decide)), (hread _ _).mpr (.inr ⟨1, by decide, rfl⟩), ?_⟩
  intro value hmem
  rcases (hread _ _).mp hmem with hnamed | ⟨i, -, hkey⟩
  · simp [l, Listing.attributes] at hnamed
  · have hnumber : (toString i).toList ≠ "c".toList :=
      toList_toString_ne rfl i
    exact hnumber (congrArg String.toList hkey.symm)

end PageLoom.Shortcode
