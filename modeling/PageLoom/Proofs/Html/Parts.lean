import PageLoom.Html.Encoding

/-!
# Parts of markup — what a reader finds in it

    Markup is read from the left: text up to an opening bracket, the
    characters of a tag up to its closing bracket, and in a tag the values in
    quotes, each up to the quote that opened it (`partsOf`).  The outline of
    markup is what is left of the parts without texts and values; these are
    its slots.

    Escaped text ends no text and no value (`harmless_escape`), so the reader
    stays in the slot for as long as it lasts (`partsFrom_cut`), and decoding
    the references from left to right gives back what was escaped
    (`decode_escape`).
-/

namespace PageLoom.Html

/-! ## References -/

/-- **Decoding**: from left to right, each of the five references that escaping
    writes gives way to its character. -/
def decode : List Char → List Char
  | [] => []
  | '&' :: 'a' :: 'm' :: 'p' :: ';' :: cs => '&' :: decode cs
  | '&' :: 'l' :: 't' :: ';' :: cs => '<' :: decode cs
  | '&' :: 'g' :: 't' :: ';' :: cs => '>' :: decode cs
  | '&' :: 'q' :: 'u' :: 'o' :: 't' :: ';' :: cs => '"' :: decode cs
  | '&' :: '#' :: '0' :: '3' :: '9' :: ';' :: cs => '\'' :: decode cs
  | c :: cs => c :: decode cs

theorem decode_of_ne {c : Char} (h : c ≠ '&') (cs : List Char) :
    decode (c :: cs) = c :: decode cs :=
  decode.eq_7 c cs (fun _ hc => absurd hc h) (fun _ hc => absurd hc h)
    (fun _ hc => absurd hc h) (fun _ hc => absurd hc h) fun _ hc => absurd hc h

/-- **A harmless text** has no brackets of tags and no quotes. -/
def Harmless (cs : List Char) : Prop :=
  ∀ c ∈ cs, c ≠ '<' ∧ c ≠ '>' ∧ c ≠ '"' ∧ c ≠ '\''

instance (cs : List Char) : Decidable (Harmless cs) :=
  List.decidableBAll _ cs

theorem Harmless.append {a b : List Char} (ha : Harmless a) (hb : Harmless b) :
    Harmless (a ++ b) :=
  List.forall_mem_append.mpr ⟨ha, hb⟩

/-- **One escaped character** is harmless, and it is decoded whatever follows. -/
theorem escapeChar_spec (c : Char) :
    Harmless (escapeChar c) ∧ ∀ rest, decode (escapeChar c ++ rest) = c :: decode rest := by
  by_cases hand : c = '&'
  · subst hand
    exact ⟨by decide, fun _ => rfl⟩
  by_cases hopen : c = '<'
  · subst hopen
    exact ⟨by decide, fun _ => rfl⟩
  by_cases hclose : c = '>'
  · subst hclose
    exact ⟨by decide, fun _ => rfl⟩
  by_cases hdouble : c = '"'
  · subst hdouble
    exact ⟨by decide, fun _ => rfl⟩
  by_cases hsingle : c = '\''
  · subst hsingle
    exact ⟨by decide, fun _ => rfl⟩
  -- any other character is copied
  have hcopied : escapeChar c = [c] := by
    simp [escapeChar, hand, hopen, hclose, hdouble, hsingle]
  rw [hcopied]
  refine ⟨?_, fun rest => decode_of_ne hand rest⟩
  simp [Harmless, hopen, hclose, hdouble, hsingle]

/-- **Decoding undoes escaping.** -/
theorem decode_escape (s : String) : decode (escape s).toList = s.toList := by
  rw [escape, String.toList_ofList]
  induction s.toList with
  | nil => rfl
  | cons c cs ih => rw [List.flatMap_cons, (escapeChar_spec c).2, ih]

/-- **Escaped text is harmless.** -/
theorem harmless_escape (s : String) : Harmless (escape s).toList := by
  rw [escape, String.toList_ofList]
  induction s.toList with
  | nil => decide
  | cons c cs ih => exact (escapeChar_spec c).1.append ih

/-! ## Reading -/

/-- **Where a reader of markup is.** -/
inductive Place
  /-- between tags -/
  | text
  /-- in a tag, outside values -/
  | tag
  /-- in a value that a quote opened -/
  | value (quote : Char)
  deriving DecidableEq

/-- **A part of markup.** -/
inductive Part
  | text (cs : List Char)
  | tag (cs : List Char)
  | value (cs : List Char)
  deriving DecidableEq

/-- Where a character takes the reader; none if it belongs to the part. -/
def Place.turn? : Place → Char → Option Place
  | .text, c => if c = '<' then some .tag else none
  | .tag, c => if c = '>' then some .text else if c = '"' ∨ c = '\'' then some (.value c) else none
  | .value quote, c => if c = quote then some .tag else none

/-- The part that is read at a place. -/
def Place.part : Place → List Char → Part
  | .text => .text
  | .tag => .tag
  | .value _ => .value

/-- The parts of markup from a place on, the characters `read` of the first part
    being read. -/
def partsFrom (place : Place) (read : List Char) : List Char → List Part
  | [] => [place.part read]
  | c :: cs =>
      match place.turn? c with
      | some next => place.part read :: partsFrom next [] cs
      | none => partsFrom place (read ++ [c]) cs

/-- **The parts of markup.** -/
def partsOf (markup : String) : List Part :=
  partsFrom .text [] markup.toList

/-- Whether a text lies in one part. -/
def Place.Holds (place : Place) (cs : List Char) : Prop :=
  ∀ c ∈ cs, place.turn? c = none

instance (place : Place) (cs : List Char) : Decidable (place.Holds cs) :=
  List.decidableBAll _ cs

theorem Harmless.holds_text {cs : List Char} (h : Harmless cs) : Place.text.Holds cs := by
  intro c hc
  exact if_neg (h c hc).1

theorem Harmless.holds_value {cs : List Char} (h : Harmless cs) : (Place.value '"').Holds cs := by
  intro c hc
  exact if_neg (h c hc).2.2.1

/-- **A part ends** where a character leads elsewhere. -/
theorem partsFrom_cut {place next : Place} {cs : List Char} {c : Char} (h : place.Holds cs)
    (hc : place.turn? c = some next) (read rest : List Char) :
    partsFrom place read (cs ++ c :: rest) = place.part (read ++ cs) :: partsFrom next [] rest := by
  induction cs generalizing read with
  | nil =>
      rw [List.nil_append, List.append_nil, partsFrom, hc]
  | cons d cs ih =>
      obtain ⟨hd, hcs⟩ := List.forall_mem_cons.mp h
      rw [List.cons_append, partsFrom, hd]
      show partsFrom place (read ++ [d]) _ = _
      rw [ih hcs, List.append_assoc, List.singleton_append]

/-- A part that nothing ends lasts as long as the markup. -/
theorem partsFrom_end {place : Place} {cs : List Char} (h : place.Holds cs) (read : List Char) :
    partsFrom place read cs = [place.part (read ++ cs)] := by
  induction cs generalizing read with
  | nil => rw [partsFrom, List.append_nil]
  | cons d cs ih =>
      obtain ⟨hd, hcs⟩ := List.forall_mem_cons.mp h
      rw [partsFrom, hd]
      show partsFrom place (read ++ [d]) _ = _
      rw [ih hcs, List.append_assoc, List.singleton_append]

/-! ## Slots -/

/-- The part without what stands in a slot. -/
def Part.blank : Part → Part
  | .text _ => .text []
  | .tag cs => .tag cs
  | .value _ => .value []

/-- What stands in a slot: a text or a value. -/
def Part.slot? : Part → Option (List Char)
  | .text cs => some cs
  | .tag _ => none
  | .value cs => some cs

/-- **What a reader finds in markup**: the tags, and what its slots hold after
    decoding.  Nothing in a slot could end it. -/
structure Reads (markup : String) (outline : List Part) (slots : List String) : Prop where
  outline : (partsOf markup).map Part.blank = outline
  slots : ((partsOf markup).filterMap Part.slot?).map decode = slots.map String.toList
  harmless : ∀ slot ∈ (partsOf markup).filterMap Part.slot?, Harmless slot

/-! ## Writing -/

/-- **A tag with slots**: the text before it, its values, each after characters of
    the tag, and the characters of the tag after the last value. -/
structure Tag where
  before : String
  values : List (String × String)
  last : String

namespace Tag

/-- The values of a tag as they are written. -/
def valuesText (values : List (String × String)) : List Char :=
  values.flatMap fun value => value.1.toList ++ '"' :: ((escape value.2).toList ++ ['"'])

/-- **A tag as it is written**, its slots escaped. -/
def text (tag : Tag) : List Char :=
  (escape tag.before).toList ++ '<' :: (valuesText tag.values ++ (tag.last.toList ++ ['>']))

/-- The parts of a tag. -/
def parts (tag : Tag) : List Part :=
  .text (escape tag.before).toList ::
    (tag.values.flatMap fun value => [.tag value.1.toList, .value (escape value.2).toList]) ++
      [.tag tag.last.toList]

/-- The parts of a tag without what stands in its slots. -/
def outline (tag : Tag) : List Part :=
  .text [] :: (tag.values.flatMap fun value => [.tag value.1.toList, .value []]) ++
    [.tag tag.last.toList]

/-- What stands in the slots of a tag. -/
def slots (tag : Tag) : List String :=
  tag.before :: tag.values.map Prod.snd

/-- Whether the characters of a tag end neither the tag nor begin a value. -/
def WellFormed (tag : Tag) : Prop :=
  (∀ value ∈ tag.values, Place.tag.Holds value.1.toList) ∧ Place.tag.Holds tag.last.toList

instance (tag : Tag) : Decidable tag.WellFormed :=
  inferInstanceAs (Decidable (_ ∧ _))

/-- **The values of a tag are read back.** -/
theorem partsFrom_values {values : List (String × String)}
    (h : ∀ value ∈ values, Place.tag.Holds value.1.toList) (rest : List Char) :
    partsFrom .tag [] (valuesText values ++ rest) =
      (values.flatMap fun value => [.tag value.1.toList, .value (escape value.2).toList]) ++
        partsFrom .tag [] rest := by
  induction values with
  | nil => simp only [valuesText, List.flatMap_nil, List.nil_append]
  | cons value values ih =>
      obtain ⟨hvalue, hvalues⟩ := List.forall_mem_cons.mp h
      have hslot : (Place.value '"').Holds (escape value.2).toList :=
        (harmless_escape value.2).holds_value
      have htext : valuesText (value :: values) ++ rest =
          value.1.toList ++ '"' :: ((escape value.2).toList ++ '"' ::
            (valuesText values ++ rest)) := by
        simp [valuesText]
      rw [htext, partsFrom_cut hvalue rfl, partsFrom_cut hslot rfl, ih hvalues]
      simp only [Place.part, List.flatMap_cons, List.cons_append, List.nil_append]

/-- **A tag is read back**, with the text before it. -/
theorem partsFrom_text {tag : Tag} (h : tag.WellFormed) (rest : List Char) :
    partsFrom .text [] (tag.text ++ rest) = tag.parts ++ partsFrom .text [] rest := by
  have hslot : Place.text.Holds (escape tag.before).toList :=
    (harmless_escape tag.before).holds_text
  have htext : tag.text ++ rest =
      (escape tag.before).toList ++ '<' :: (valuesText tag.values ++
        (tag.last.toList ++ '>' :: rest)) := by
    simp [text]
  rw [htext, partsFrom_cut hslot rfl, partsFrom_values h.1, partsFrom_cut h.2 rfl]
  simp [parts, Place.part]

/-- The reader finds the outline of a tag. -/
theorem blank_parts (tag : Tag) : tag.parts.map Part.blank = tag.outline := by
  simp [parts, outline, Part.blank, List.map_flatMap]

/-- The reader finds in the slots of a tag what was escaped into them. -/
theorem slots_parts (tag : Tag) :
    tag.parts.filterMap Part.slot? = tag.slots.map fun slot => (escape slot).toList := by
  have hvalues : (tag.values.flatMap fun value : String × String =>
      [Part.tag value.1.toList, .value (escape value.2).toList]).filterMap Part.slot? =
        tag.values.map fun value => (escape value.2).toList := by
    rw [List.filterMap_flatMap, List.map_eq_flatMap]
    simp only [List.filterMap_cons, List.filterMap_nil, Part.slot?]
  simp only [parts, slots, List.filterMap_append, List.filterMap_cons, List.filterMap_nil,
    List.cons_append, hvalues, Part.slot?, List.map_cons, List.map_map, List.append_nil,
    Function.comp_def]

end Tag

/-- Tags as they are written, and a text after the last. -/
def writeTags (tags : List Tag) (last : String) : List Char :=
  tags.flatMap Tag.text ++ (escape last).toList

theorem partsFrom_writeTags {tags : List Tag} (h : ∀ tag ∈ tags, tag.WellFormed)
    (last : String) :
    partsFrom .text [] (writeTags tags last) =
      tags.flatMap Tag.parts ++ [.text (escape last).toList] := by
  induction tags with
  | nil =>
      simp only [writeTags, List.flatMap_nil, List.nil_append]
      rw [partsFrom_end (harmless_escape last).holds_text, Place.part, List.nil_append]
  | cons tag tags ih =>
      obtain ⟨htag, htags⟩ := List.forall_mem_cons.mp h
      have hrest := ih htags
      rw [writeTags] at hrest ⊢
      rw [List.flatMap_cons, List.append_assoc, Tag.partsFrom_text htag, hrest,
        List.flatMap_cons, List.append_assoc]

/-- **Written tags are read back**: the tags as they are, and in the slots just
    what was put there. -/
theorem reads_of_writeTags {markup : String} {tags : List Tag} {last : String}
    (hmarkup : markup.toList = writeTags tags last) (h : ∀ tag ∈ tags, tag.WellFormed) :
    Reads markup (tags.flatMap Tag.outline ++ [.text []]) (tags.flatMap Tag.slots ++ [last]) := by
  have hparts : partsOf markup = tags.flatMap Tag.parts ++ [.text (escape last).toList] := by
    rw [partsOf, hmarkup, partsFrom_writeTags h]
  have hslots : (partsOf markup).filterMap Part.slot? =
      (tags.flatMap Tag.slots ++ [last]).map fun slot => (escape slot).toList := by
    rw [hparts, List.filterMap_append, List.filterMap_flatMap, List.map_append, List.map_flatMap]
    simp only [Tag.slots_parts, List.filterMap_cons, List.filterMap_nil, Part.slot?,
      List.map_cons, List.map_nil]
  refine ⟨?_, ?_, ?_⟩
  · rw [hparts, List.map_append, List.map_flatMap]
    simp only [Tag.blank_parts, List.map_cons, List.map_nil, Part.blank]
  · rw [hslots, List.map_map]
    refine List.map_congr_left fun slot _ => ?_
    rw [Function.comp_apply, decode_escape]
  · rw [hslots]
    intro slot hslot
    obtain ⟨s, -, rfl⟩ := List.mem_map.mp hslot
    exact harmless_escape s

end PageLoom.Html
