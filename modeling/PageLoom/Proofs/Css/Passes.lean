import PageLoom.Proofs.Css.Comments
import PageLoom.Proofs.Css.Minified
import PageLoom.Proofs.Css.Offsets
import PageLoom.Proofs.Text.Cut

/-!
# Passes over bytes — every cut is at a boundary

    Each pass over a stylesheet is given again as it runs over bytes.  It holds
    the offset of the next byte and those offsets at which it will cut the
    text; a cut inside a character or beyond the end fails, and the pass with
    it (`none`).

    Started at a boundary, a pass is at a boundary after every character, and
    the offsets it holds are boundaries behind it.  So no cut fails, and the
    pass finds what the pass over characters finds (`segmentsFrom_eq`,
    `membersFrom_eq`, `stripFrom_eq`, `minifyFrom_eq`).
-/

namespace PageLoom.Css

open Text
open String (utf8Len utf8Len_append utf8Len_cons utf8Len_eq_zero)

namespace Offset

/-! ## Segments -/

/-- The segments from offset `i` on; the last cut was at `start`. -/
def segmentsFrom (text : List Char) (depth start i : Nat) : Option (List Segment) :=
  if i < size text then
    if isAnyAt text i quotes then segmentsFrom text depth start (literalEnd text i)
    else if isAt text i '{' then segmentsFrom text (depth + 1) start (i + 1)
    else if isAt text i '}' then
      if 1 < depth then segmentsFrom text (depth - 1) start (i + 1)
      else (slice? text start (i + 1)).bind fun piece =>
        (segmentsFrom text 0 (i + 1) (i + 1)).map (.block piece :: ·)
    else if isAt text i ';' && depth = 0 then
      (slice? text start (i + 1)).bind fun piece =>
        (segmentsFrom text 0 (i + 1) (i + 1)).map (.statement piece :: ·)
    else segmentsFrom text depth start (i + 1)
  else
    (sliceFrom? text start).map fun rest =>
      if rest.all isBlank then []
      else if 0 < depth then [.unterminated rest]
      else [.tail rest]
termination_by size text - i
decreasing_by
  all_goals
    have := lt_literalEnd ‹_›
    omega

/-- **Segmentation**, byte by byte. -/
def segments (css : List Char) : Option (List Segment) :=
  segmentsFrom css 0 0 0

theorem segmentsFrom_pass {text : List Char} {i : Nat} {byte : UInt8}
    (hbyte : (bytes text)[i]? = some byte) (hhigh : 128 ≤ byte.toNat) (depth start : Nat) :
    segmentsFrom text depth start i = segmentsFrom text depth start (i + 1) := by
  have hno : ∀ {x : Char}, x.toNat < 128 → isAt text i x = false := isAt_of_high hbyte hhigh
  rw [segmentsFrom, if_pos (lt_size hbyte), isAnyAt_of_high hbyte hhigh ascii_quotes,
    hno (by decide), hno (by decide), hno (by decide)]
  rfl

theorem segmentsFrom_literal {c : Char} (hc : isQuote c = true) (depth : Nat)
    (read cs : List Char) :
    Css.segmentsFrom .code depth read (c :: cs) =
      Css.segmentsFrom .code depth (((Quoting.inside c).literal cs).reverse ++ c :: read)
        ((Quoting.inside c).afterLiteral cs) := by
  have hcons : ∀ q read c cs, q ≠ .code → Css.segmentsFrom q depth read (c :: cs) =
      Css.segmentsFrom (q.next c) depth (c :: read) cs := by
    intro q read c cs hq
    rw [Css.segmentsFrom]
    exact if_pos hq
  rw [← Quoting.skip_literal hcons fun _ _ => rfl]
  rcases isQuote_iff.mp hc with rfl | rfl <;> rfl

/-- **Segmentation reads the characters**, whichever segment it is in. -/
theorem segmentsFrom_eq {text : List Char} (a cs : List Char) (htext : text = a ++ cs)
    {u v : List Char} (ha : a = u ++ v) (depth : Nat) :
    segmentsFrom text depth (utf8Len u) (utf8Len a) =
      some (Css.segmentsFrom .code depth v.reverse cs) := by
  induction a, cs using scan_induction generalizing u v depth with
  | nil a =>
      have hend := size_of_append_nil htext
      rw [segmentsFrom, if_neg (by omega), Css.segmentsFrom, htext, List.append_nil, ha,
        sliceFrom?_append, List.reverse_reverse]
      rfl
  | quote a c cs hc ih =>
      have hread : a ++ c :: (Quoting.inside c).literal cs =
          u ++ (v ++ c :: (Quoting.inside c).literal cs) := by
        rw [ha, List.append_assoc]
      rw [segmentsFrom, if_pos (size_append_cons_pos htext),
        isQuoteAt_boundary htext, if_pos hc, literalEnd_eq hc htext,
        ih (append_literal htext) hread depth, segmentsFrom_literal hc, List.reverse_append,
        List.reverse_cons, List.append_assoc]
      rfl
  | other a c cs hc ih =>
      have hat : ∀ {x : Char}, x.toNat < 128 → (isAt text (utf8Len a) x = true ↔ c = x) :=
        isAt_boundary htext
      have hread : a ++ [c] = u ++ (v ++ [c]) := by
        rw [ha, List.append_assoc]
      have hrest : ∀ depth, segmentsFrom text depth (utf8Len u) (utf8Len a + 1) =
          some (Css.segmentsFrom .code depth (c :: v.reverse) cs) := by
        intro depth
        rw [eq_of_passes (fun _ _ hbyte hhigh => segmentsFrom_pass hbyte hhigh depth _) htext,
          ih _ _ (Nat.le_refl _) (append_char htext) hread depth, List.reverse_append]
        rfl
      have hcut : c.toNat < 128 →
          slice? text (utf8Len u) (utf8Len a + 1) = some (c :: v.reverse).reverse ∧
          segmentsFrom text 0 (utf8Len a + 1) (utf8Len a + 1) =
            some (Css.segmentsFrom .code 0 [] cs) := by
        intro hlt
        rw [← utf8Len_concat_of_lt a hlt]
        refine ⟨?_, ?_⟩
        · rw [append_char htext, hread, slice?_append, List.reverse_cons, List.reverse_reverse]
        · exact ih _ _ (Nat.le_refl _) (append_char htext) (List.append_nil _).symm 0
      rw [segmentsFrom, if_pos (size_append_cons_pos htext),
        isQuoteAt_boundary htext, hc, if_neg Bool.false_ne_true, Css.segmentsFrom,
        if_neg (not_not_intro rfl)]
      simp only [hat (x := '{') (by decide), hat (x := '}') (by decide), Bool.and_eq_true,
        hat (x := ';') (by decide), decide_eq_true_eq, Quoting.next_code_of_not_quote hc]
      split
      · exact hrest _
      split
      · rename_i hclose
        obtain ⟨hslice, hnew⟩ := hcut (hclose ▸ by decide)
        split
        · exact hrest _
        · rw [hslice, Option.bind_some, hnew]
          rfl
      split
      · rename_i hend
        obtain ⟨hslice, hnew⟩ := hcut (hend.1 ▸ by decide)
        rw [hslice, Option.bind_some, hnew]
        rfl
      · exact hrest _

/-- **The pass for segments** succeeds on every text and gives its segments. -/
theorem segments_eq (css : List Char) : segments css = some (Css.segments css) :=
  segmentsFrom_eq [] css rfl (List.append_nil []).symm 0

/-! ## Members of selector lists -/

/-- The members from offset `i` on; the current one starts at `start`. -/
def membersFrom (text : List Char) (depth start i : Nat) : Option (List (List Char)) :=
  if i < size text then
    if isAnyAt text i quotes then membersFrom text depth start (literalEnd text i)
    else if isAt text i '(' || isAt text i '[' then membersFrom text (depth + 1) start (i + 1)
    else if isAt text i ')' || isAt text i ']' then membersFrom text (depth - 1) start (i + 1)
    else if isAt text i ',' && depth = 0 then
      (slice? text start i).bind fun member =>
        (membersFrom text 0 (i + 1) (i + 1)).map (member :: ·)
    else membersFrom text depth start (i + 1)
  else (sliceFrom? text start).map ([·])
termination_by size text - i
decreasing_by
  all_goals
    have := lt_literalEnd ‹_›
    omega

/-- **The members of a selector list**, byte by byte. -/
def selectorMembers (selectors : List Char) : Option (List (List Char)) :=
  membersFrom selectors 0 0 0

theorem membersFrom_pass {text : List Char} {i : Nat} {byte : UInt8}
    (hbyte : (bytes text)[i]? = some byte) (hhigh : 128 ≤ byte.toNat) (depth start : Nat) :
    membersFrom text depth start i = membersFrom text depth start (i + 1) := by
  have hno : ∀ {x : Char}, x.toNat < 128 → isAt text i x = false := isAt_of_high hbyte hhigh
  rw [membersFrom, if_pos (lt_size hbyte), isAnyAt_of_high hbyte hhigh ascii_quotes,
    hno (by decide), hno (by decide), hno (by decide), hno (by decide), hno (by decide)]
  rfl

theorem membersFrom_literal {c : Char} (hc : isQuote c = true) (depth : Nat)
    (read cs : List Char) :
    Css.membersFrom .code depth read (c :: cs) =
      Css.membersFrom .code depth (((Quoting.inside c).literal cs).reverse ++ c :: read)
        ((Quoting.inside c).afterLiteral cs) := by
  have hcons : ∀ q read c cs, q ≠ .code → Css.membersFrom q depth read (c :: cs) =
      Css.membersFrom (q.next c) depth (c :: read) cs := by
    intro q read c cs hq
    rw [Css.membersFrom]
    exact if_pos hq
  rw [← Quoting.skip_literal hcons fun _ _ => rfl]
  rcases isQuote_iff.mp hc with rfl | rfl <;> rfl

/-- **Splitting reads the characters**, whichever member it is in. -/
theorem membersFrom_eq {text : List Char} (a cs : List Char) (htext : text = a ++ cs)
    {u v : List Char} (ha : a = u ++ v) (depth : Nat) :
    membersFrom text depth (utf8Len u) (utf8Len a) =
      some (Css.membersFrom .code depth v.reverse cs) := by
  induction a, cs using scan_induction generalizing u v depth with
  | nil a =>
      have hend := size_of_append_nil htext
      rw [membersFrom, if_neg (by omega), Css.membersFrom, htext, List.append_nil, ha,
        sliceFrom?_append, List.reverse_reverse]
      rfl
  | quote a c cs hc ih =>
      have hread : a ++ c :: (Quoting.inside c).literal cs =
          u ++ (v ++ c :: (Quoting.inside c).literal cs) := by
        rw [ha, List.append_assoc]
      rw [membersFrom, if_pos (size_append_cons_pos htext),
        isQuoteAt_boundary htext, if_pos hc, literalEnd_eq hc htext,
        ih (append_literal htext) hread depth, membersFrom_literal hc, List.reverse_append,
        List.reverse_cons, List.append_assoc]
      rfl
  | other a c cs hc ih =>
      have hat : ∀ {x : Char}, x.toNat < 128 → (isAt text (utf8Len a) x = true ↔ c = x) :=
        isAt_boundary htext
      have hread : a ++ [c] = u ++ (v ++ [c]) := by
        rw [ha, List.append_assoc]
      have hrest : ∀ depth, membersFrom text depth (utf8Len u) (utf8Len a + 1) =
          some (Css.membersFrom .code depth (c :: v.reverse) cs) := by
        intro depth
        rw [eq_of_passes (fun _ _ hbyte hhigh => membersFrom_pass hbyte hhigh depth _) htext,
          ih _ _ (Nat.le_refl _) (append_char htext) hread depth, List.reverse_append]
        rfl
      rw [membersFrom, if_pos (size_append_cons_pos htext),
        isQuoteAt_boundary htext, hc, if_neg Bool.false_ne_true, Css.membersFrom,
        if_neg (not_not_intro rfl)]
      simp only [hat (x := '(') (by decide), hat (x := '[') (by decide), Bool.or_eq_true,
        hat (x := ')') (by decide), hat (x := ']') (by decide), Bool.and_eq_true,
        hat (x := ',') (by decide), decide_eq_true_eq, Quoting.next_code_of_not_quote hc]
      split
      · exact hrest _
      split
      · exact hrest _
      split
      · rename_i hcomma
        have hslice : slice? text (utf8Len u) (utf8Len a) = some v.reverse.reverse := by
          rw [htext, ha, slice?_append, List.reverse_reverse]
        have hnew : membersFrom text 0 (utf8Len a + 1) (utf8Len a + 1) =
            some (Css.membersFrom .code 0 [] cs) := by
          rw [← utf8Len_concat_of_lt a (hcomma.1 ▸ by decide : c.toNat < 128)]
          exact ih _ _ (Nat.le_refl _) (append_char htext) (List.append_nil _).symm 0
        rw [hslice, Option.bind_some, hnew]
        rfl
      · exact hrest _

/-- **The pass for members** succeeds on every text and gives its members. -/
theorem selectorMembers_eq (selectors : List Char) :
    selectorMembers selectors = some (Css.selectorMembers selectors) :=
  membersFrom_eq [] selectors rfl (List.append_nil []).symm 0

/-! ## Colons in selectors -/

/-- Whether the next brace or semicolon from offset `i` on is an opening brace. -/
def startsBlock (text : List Char) (i : Nat) : Bool :=
  if i < size text then
    if isAnyAt text i quotes then startsBlock text (literalEnd text i)
    else if isAt text i '{' then true
    else if isAt text i ';' || isAt text i '}' then false
    else startsBlock text (i + 1)
  else false
termination_by size text - i
decreasing_by
  all_goals
    have := lt_literalEnd ‹_›
    omega

theorem startsBlock_pass {text : List Char} {i : Nat} {byte : UInt8}
    (hbyte : (bytes text)[i]? = some byte) (hhigh : 128 ≤ byte.toNat) :
    startsBlock text i = startsBlock text (i + 1) := by
  have hno : ∀ {x : Char}, x.toNat < 128 → isAt text i x = false := isAt_of_high hbyte hhigh
  rw [startsBlock, if_pos (lt_size hbyte), isAnyAt_of_high hbyte hhigh ascii_quotes,
    hno (by decide), hno (by decide), hno (by decide)]
  rfl

theorem startsBlock_literal {c : Char} (hc : isQuote c = true) (cs : List Char) :
    Css.startsBlock .code (c :: cs) =
      Css.startsBlock .code ((Quoting.inside c).afterLiteral cs) := by
  have hcons : ∀ q (_ : List Char) c cs, q ≠ .code → Css.startsBlock q (c :: cs) =
      Css.startsBlock (q.next c) cs := by
    intro q _ c cs hq
    rw [Css.startsBlock, decide_eq_false hq, Bool.false_and, Bool.false_and]
    rfl
  have hskip := Quoting.skip_literal (f := fun q _ cs => Css.startsBlock q cs) hcons
    (fun _ _ => rfl) c [] cs
  rw [← hskip]
  rcases isQuote_iff.mp hc with rfl | rfl <;> rfl

/-- The search for a block, from any boundary. -/
theorem startsBlock_eq {text : List Char} (a cs : List Char) (htext : text = a ++ cs) :
    startsBlock text (utf8Len a) = Css.startsBlock .code cs := by
  induction a, cs using scan_induction with
  | nil a =>
      have hend := size_of_append_nil htext
      rw [startsBlock, if_neg (by omega), Css.startsBlock]
  | quote a c cs hc ih =>
      rw [startsBlock, if_pos (size_append_cons_pos htext),
        isQuoteAt_boundary htext, if_pos hc, literalEnd_eq hc htext,
        ih (append_literal htext), startsBlock_literal hc]
  | other a c cs hc ih =>
      have hat : ∀ {x : Char}, x.toNat < 128 → (isAt text (utf8Len a) x = true ↔ c = x) :=
        isAt_boundary htext
      have hrest : startsBlock text (utf8Len a + 1) = Css.startsBlock .code cs := by
        rw [eq_of_passes (fun _ _ => startsBlock_pass) htext,
          ih _ _ (Nat.le_refl _) (append_char htext)]
      rw [startsBlock, if_pos (size_append_cons_pos htext),
        isQuoteAt_boundary htext, hc, if_neg Bool.false_ne_true, Css.startsBlock, hrest,
        Quoting.next_code_of_not_quote hc]
      simp only [hat (x := '{') (by decide), hat (x := ';') (by decide), Bool.or_eq_true,
        hat (x := '}') (by decide), decide_true, Bool.true_and, decide_eq_true_eq]

/-! ## Comments -/

/-- The offset after the comment that opens at `i`, whose text starts `rest`. -/
def commentEnd (text rest : List Char) (i : Nat) : Nat :=
  match cutAt ['*', '/'] rest with
  | some (inside, _) => i + 2 + utf8Len inside + 2
  | none => size text

/-- A comment ends after its start, so the pass moves on. -/
theorem lt_commentEnd {text : List Char} {i : Nat} (h : i < size text) (rest : List Char) :
    i < commentEnd text rest i := by
  rw [commentEnd]
  split
  · omega
  · exact h

/-- What is left of the text from offset `copied` on, all up to offset `i` being
    outside comments. -/
def stripFrom (text : List Char) (copied i : Nat) : Option (List Char) :=
  if i < size text then
    if isAnyAt text i quotes then stripFrom text copied (literalEnd text i)
    else if isAt text i '/' && isAt text (i + 1) '*' then
      (slice? text copied i).bind fun kept =>
        (sliceFrom? text (i + 2)).bind fun rest =>
          (stripFrom text (commentEnd text rest i) (commentEnd text rest i)).map (kept ++ ·)
    else stripFrom text copied (i + 1)
  else if copied < size text then sliceFrom? text copied
  else some []
termination_by size text - i
decreasing_by
  · have := lt_literalEnd ‹_›
    omega
  · have := lt_commentEnd ‹_› rest
    omega
  · omega

/-- **Comment removal**, byte by byte. -/
def stripComments (css : List Char) : Option (List Char) :=
  stripFrom css 0 0

theorem stripFrom_pass {text : List Char} {i : Nat} {byte : UInt8}
    (hbyte : (bytes text)[i]? = some byte) (hhigh : 128 ≤ byte.toNat) (copied : Nat) :
    stripFrom text copied i = stripFrom text copied (i + 1) := by
  rw [stripFrom, if_pos (lt_size hbyte), isAnyAt_of_high hbyte hhigh ascii_quotes,
    isAt_of_high hbyte hhigh (by decide)]
  rfl

theorem stripFrom_literal {c : Char} (hc : isQuote c = true) (cs : List Char) :
    Css.stripFrom (.text .code) (c :: cs) =
      c :: (Quoting.inside c).literal cs ++
        Css.stripFrom (.text .code) ((Quoting.inside c).afterLiteral cs) := by
  have hcons : ∀ q (read : List Char) c cs, q ≠ .code →
      read.reverse ++ Css.stripFrom (.text q) (c :: cs) =
        (c :: read).reverse ++ Css.stripFrom (.text (q.next c)) cs := by
    intro q read c cs hq
    rw [stripFrom_cons fun h => hq h.1, List.reverse_cons, List.append_assoc]
    rfl
  have hskip := Quoting.skip_literal
    (f := fun q read cs => read.reverse ++ Css.stripFrom (.text q) cs) hcons (fun _ _ => rfl) c []
    cs
  have hnext : Quoting.code.next c = .inside c := if_pos hc
  have hopens : ¬Opens .code c cs := by
    rintro ⟨-, rfl, -⟩
    cases hc
  rw [stripFrom_cons hopens, hnext, List.cons_append]
  rw [List.append_nil, List.reverse_reverse] at hskip
  exact congrArg (c :: ·) hskip

/-- A comment ends at the first mark of its end. -/
theorem stripFrom_comment_eq (cs : List Char) :
    Css.stripFrom .comment cs =
      match cutAt ['*', '/'] cs with
      | some (_, after) => Css.stripFrom (.text .code) after
      | none => [] := by
  induction cs with
  | nil => rfl
  | cons c cs ih =>
      by_cases hends : c = '*' ∧ cs.head? = some '/'
      · obtain ⟨rfl, hhead⟩ := hends
        obtain ⟨after, rfl⟩ := List.head?_eq_some_iff.mp hhead
        rfl
      · have hlead : afterLead ['*', '/'] (c :: cs) = none := by
          rw [afterLead_eq_none_iff]
          rintro ⟨after, hafter⟩
          obtain ⟨rfl, rfl⟩ := List.cons.inj hafter
          exact hends ⟨rfl, rfl⟩
        rw [stripFrom_comment hends, ih, cutAt, hlead]
        cases cutAt ['*', '/'] cs with
        | none => rfl
        | some found => rfl

/-- **Comment removal reads the characters**, whatever it has still to copy. -/
theorem stripFrom_eq {text : List Char} (a cs : List Char) (htext : text = a ++ cs)
    {u v : List Char} (ha : a = u ++ v) :
    stripFrom text (utf8Len u) (utf8Len a) = some (v ++ Css.stripFrom (.text .code) cs) := by
  induction a, cs using scan_induction generalizing u v with
  | nil a =>
      have hend := size_of_append_nil htext
      rw [stripFrom, if_neg (by omega), Css.stripFrom, List.append_nil]
      split
      · rw [htext, List.append_nil, ha, sliceFrom?_append]
      · rename_i hle
        rw [hend, ha, utf8Len_append] at hle
        rw [utf8Len_eq_zero.mp (by omega : utf8Len v = 0)]
  | quote a c cs hc ih =>
      have hread : a ++ c :: (Quoting.inside c).literal cs =
          u ++ (v ++ c :: (Quoting.inside c).literal cs) := by
        rw [ha, List.append_assoc]
      rw [stripFrom, if_pos (size_append_cons_pos htext), isQuoteAt_boundary htext, if_pos hc,
        literalEnd_eq hc htext, ih (append_literal htext) hread, stripFrom_literal hc,
        List.append_assoc]
  | other a c cs hc ih =>
      have hat : isAt text (utf8Len a) '/' = true ↔ c = '/' := isAt_boundary htext (by decide)
      rw [stripFrom, if_pos (size_append_cons_pos htext), isQuoteAt_boundary htext, hc,
        if_neg Bool.false_ne_true]
      by_cases hopens : Opens .code c cs
      · obtain ⟨-, rfl, hhead⟩ := hopens
        obtain ⟨rest, rfl⟩ := List.head?_eq_some_iff.mp hhead
        have hinside : text = a ++ ['/', '*'] ++ rest := by
          rw [htext, List.append_assoc]
          rfl
        have hstar : isAt text (utf8Len a + 1) '*' = true := by
          rw [← utf8Len_concat_of_lt a (by decide : '/'.toNat < 128),
            isAt_boundary (append_char htext) (by decide)]
        have hkept : slice? text (utf8Len u) (utf8Len a) = some v := by
          rw [htext, ha, slice?_append]
        have hstart : utf8Len a + 2 = utf8Len (a ++ ['/', '*']) := by
          rw [utf8Len_append]
          rfl
        have hrest : sliceFrom? text (utf8Len a + 2) = some rest := by
          rw [hstart, hinside, sliceFrom?_append]
        rw [hat.mpr rfl, hstar, Bool.and_self, if_pos rfl, hkept, Option.bind_some, hrest, Option.bind_some,
          Css.stripFrom, stripFrom_comment_eq, commentEnd]
        cases hcut : cutAt ['*', '/'] rest with
        | none =>
            have hend : stripFrom text (size text) (size text) = some [] := by
              rw [stripFrom, if_neg (Nat.lt_irrefl _), if_neg (Nat.lt_irrefl _)]
            rw [hend]
            rfl
        | some found =>
            obtain ⟨inside, after⟩ := found
            have hafter : text = a ++ ['/', '*'] ++ inside ++ ['*', '/'] ++ after := by
              rw [hinside, cutAt_eq_some hcut]
              simp only [List.append_assoc]
            have hend : utf8Len a + 2 + utf8Len inside + 2 =
                utf8Len (a ++ ['/', '*'] ++ inside ++ ['*', '/']) := by
              rw [utf8Len_append, utf8Len_append, ← hstart]
              rfl
            have hle : after.length ≤ ('*' :: rest).length := by
              rw [cutAt_eq_some hcut]
              simp only [List.length_cons, List.length_append]
              omega
            dsimp only
            rw [hend, ih _ _ hle hafter (List.append_nil _).symm]
            rfl
      · have hnot : ¬(isAt text (utf8Len a) '/' && isAt text (utf8Len a + 1) '*') = true := by
          rw [Bool.and_eq_true, hat]
          rintro ⟨rfl, hstar⟩
          rw [← utf8Len_concat_of_lt a (by decide : '/'.toNat < 128)] at hstar
          cases cs with
          | nil =>
              rw [isAt_end (append_char htext)] at hstar
              cases hstar
          | cons d cs =>
              rw [isAt_boundary (append_char htext) (by decide)] at hstar
              exact hopens ⟨rfl, rfl, congrArg some hstar⟩
        have hread : a ++ [c] = u ++ (v ++ [c]) := by
          rw [ha, List.append_assoc]
        rw [if_neg hnot, eq_of_passes (fun _ _ hbyte hhigh => stripFrom_pass hbyte hhigh _) htext,
          ih _ _ (Nat.le_refl _) (append_char htext) hread, stripFrom_cons hopens,
          Quoting.next_code_of_not_quote hc, List.append_assoc]
        rfl

/-- **The pass for comments** succeeds on every text and gives what is left. -/
theorem stripComments_eq (css : List Char) : stripComments css = some (Css.stripComments css) :=
  stripFrom_eq [] css rfl (List.append_nil []).symm

/-! ## Minification -/

/-- A text written after any pending space. -/
def put (m : Minifying) (text : List Char) : Minifying :=
  { m.flush with written := text.reverse ++ m.flush.written, afterPunctuation := false }

/-- The open parentheses after the byte at an offset. -/
def parensAfter (text : List Char) (i parens : Nat) : Nat :=
  if isAt text i '(' then parens + 1
  else if isAt text i ')' then parens - 1
  else parens

/-- The white space of stylesheets. -/
def spaces : List Char := [' ', '\t', '\n', '\x0c', '\r']

/-- The punctuation that swallows white space. -/
def punctuation : List Char := ['{', '}', ':', ';', ',', '>', '+', '~']

/-- Whether the punctuation at an offset keeps the white space around it. -/
def keepsSpaces (text : List Char) (m : Minifying) (i : Nat) : Bool :=
  (isAt text i '+' && 0 < m.parens) ||
    (isAt text i ':' && m.pendingSpace && m.parens = 0 && startsBlock text (i + 1))

/-- The text written for the rest of a stylesheet from offset `i` on, last
    character first. -/
def minifyFrom (text : List Char) (m : Minifying) (i : Nat) : Option (List Char) :=
  if i < size text then
    if isAnyAt text i quotes then
      (slice? text i (literalEnd text i)).bind fun literal =>
        minifyFrom text (put m literal) (literalEnd text i)
    else if isAnyAt text i spaces then minifyFrom text { m with pendingSpace := true } (i + 1)
    else
      (bytes text)[i]?.bind fun byte =>
        if isAnyAt text i punctuation then
          if keepsSpaces text m i then minifyFrom text (m.put (.ofUInt8 byte)) (i + 1)
          else minifyFrom text (m.putTight (.ofUInt8 byte)) (i + 1)
        else
          (slice? text i (min (i + bytesOf byte) (size text))).bind fun character =>
            minifyFrom text { put m character with parens := parensAfter text i m.parens }
              (i + bytesOf byte)
  else some m.written
termination_by size text - i
decreasing_by
  · have := lt_literalEnd ‹_›
    omega
  · omega
  · omega
  · omega
  · have := bytesOf_pos byte
    omega

/-- **Minification**, byte by byte. -/
def minify (css : String) : Option String := do
  let stripped ← stripComments css.toList
  let written ← minifyFrom stripped .start 0
  return String.ofList (trim written.reverse)

theorem quoting_put (m : Minifying) (text : List Char) : (put m text).quoting = m.quoting :=
  m.flush_quoting

theorem parens_put (m : Minifying) (text : List Char) : (put m text).parens = m.parens := by
  show m.flush.parens = m.parens
  rw [Minifying.flush]
  split <;> rfl

/-- Outside strings the first character goes through the minifier, and the rest of
    its literal is copied. -/
theorem put_cons {m : Minifying} (hm : m.quoting = .code) (c : Char) (cs : List Char) :
    put m (c :: cs) =
      { m.put c with written := cs.reverse ++ (m.put c).written, quoting := .code } := by
  have hquoting : m.flush.quoting = .code := m.flush_quoting.trans hm
  rw [put, Minifying.put, List.reverse_cons, List.append_assoc, ← hquoting]
  rfl

theorem minifyFrom_literal {c : Char} (hc : isQuote c = true) {m : Minifying}
    (hm : m.quoting = .code) (cs : List Char) :
    Css.minifyFrom m (c :: cs) =
      Css.minifyFrom (put m (c :: (Quoting.inside c).literal cs))
        ((Quoting.inside c).afterLiteral cs) := by
  have hcons : ∀ q read d ds, q ≠ .code →
      Css.minifyFrom { m.put c with written := read, quoting := q } (d :: ds) =
        Css.minifyFrom { m.put c with written := d :: read, quoting := q.next d } ds := by
    intro q read d ds hq
    rw [Css.minifyFrom, if_neg hq]
  have hskip := Quoting.skip_literal
    (f := fun q read cs => Css.minifyFrom { m.put c with written := read, quoting := q } cs)
    hcons (fun _ _ => rfl) c (m.put c).written cs
  rw [Css.minifyFrom, if_pos hm, minifyCode, if_pos hc]
  rw [put_cons hm]
  exact hskip

theorem ascii_spaces : Ascii spaces :=
  ascii_of_all rfl

theorem ascii_punctuation : Ascii punctuation :=
  ascii_of_all rfl

theorem isSpacing_iff {c : Char} : isSpacing c = true ↔ c ∈ spaces := by
  simp only [spaces, isSpacing, List.mem_cons, List.not_mem_nil, or_false, Bool.or_eq_true,
    beq_iff_eq, or_assoc]

theorem isPunctuation_iff {c : Char} : isPunctuation c = true ↔ c ∈ punctuation := by
  simp only [punctuation, isPunctuation, List.mem_cons, List.not_mem_nil, or_false,
    Bool.or_eq_true, beq_iff_eq, or_assoc]

/-- **Minification reads the characters.** -/
theorem minifyFrom_eq {text : List Char} (a cs : List Char) (htext : text = a ++ cs)
    {m : Minifying} (hm : m.quoting = .code) :
    minifyFrom text m (utf8Len a) = some (Css.minifyFrom m cs) := by
  induction a, cs using scan_induction generalizing m with
  | nil a =>
      have hend := size_of_append_nil htext
      rw [minifyFrom, if_neg (by omega), Css.minifyFrom]
  | quote a c cs hc ih =>
      have hliteral : slice? text (utf8Len a)
          (utf8Len (a ++ c :: (Quoting.inside c).literal cs)) =
            some (c :: (Quoting.inside c).literal cs) := by
        conv => lhs; rw [append_literal htext]
        exact slice?_append ..
      rw [minifyFrom, if_pos (size_append_cons_pos htext), isQuoteAt_boundary htext, if_pos hc,
        literalEnd_eq hc htext, hliteral, Option.bind_some, 
        ih (append_literal htext) ((quoting_put m _).trans hm), minifyFrom_literal hc hm]
  | other a c cs hc ih =>
      have hbyte : (bytes text)[utf8Len a]? = some (firstByte c) :=
        htext ▸ bytes_getElem?_boundary a c cs
      have hspaces : isAnyAt text (utf8Len a) spaces = isSpacing c := by
        rw [Bool.eq_iff_iff, isAnyAt_boundary htext ascii_spaces, isSpacing_iff]
      have hpunctuation : isAnyAt text (utf8Len a) punctuation = isPunctuation c := by
        rw [Bool.eq_iff_iff, isAnyAt_boundary htext ascii_punctuation, isPunctuation_iff]
      -- after a character of ASCII the next byte is at a boundary
      have hrest : c.toNat < 128 → ∀ m : Minifying, m.quoting = .code →
          minifyFrom text m (utf8Len a + 1) = some (Css.minifyFrom m cs) := by
        intro hlt m hm
        rw [← utf8Len_concat_of_lt a hlt]
        exact ih _ _ (Nat.le_refl _) (append_char htext) hm
      rw [minifyFrom, if_pos (size_append_cons_pos htext), isQuoteAt_boundary htext, hc,
        if_neg Bool.false_ne_true, hspaces, Css.minifyFrom, if_pos hm, minifyCode, hc,
        if_neg Bool.false_ne_true, hbyte, Option.bind_some, hpunctuation]
      split
      · rename_i hspacing
        exact hrest (ascii_spaces c (isSpacing_iff.mp hspacing)) _ hm
      split
      · rename_i hpunctuation
        have hascii := ascii_punctuation c (isPunctuation_iff.mp hpunctuation)
        have hkeeps : keepsSpaces text m (utf8Len a) = ((c = '+' && 0 < m.parens) ||
            (c = ':' && m.pendingSpace && m.parens = 0 && Css.startsBlock .code cs)) := by
          rw [keepsSpaces, ← utf8Len_concat_of_lt a hascii,
            startsBlock_eq _ _ (append_char htext), Bool.eq_iff_iff]
          simp only [Bool.or_eq_true, Bool.and_eq_true, decide_eq_true_eq,
            isAt_boundary htext (by decide : '+'.toNat < 128),
            isAt_boundary htext (by decide : ':'.toNat < 128)]
        rw [hkeeps, ofUInt8_firstByte hascii]
        split
        · exact hrest hascii _ ((quoting_put m [c]).trans hm)
        · exact hrest hascii _ hm
      · have hend : utf8Len a + bytesOf (firstByte c) = utf8Len (a ++ [c]) := by
          rw [bytesOf_firstByte, utf8Len_concat]
        have hmin : min (utf8Len (a ++ [c])) (size text) = utf8Len (a ++ [c]) := by
          refine Nat.min_eq_left ?_
          rw [size, length_bytes, append_char htext, utf8Len_append _ cs]
          exact Nat.le_add_right ..
        have hcharacter : slice? text (utf8Len a) (utf8Len (a ++ [c])) = some [c] := by
          rw [append_char htext, slice?_append]
        rw [hend, hmin, hcharacter, Option.bind_some]
        have hquoting : { put m [c] with
            parens := parensAfter text (utf8Len a) m.parens }.quoting = .code :=
          (quoting_put m [c]).trans hm
        refine (ih _ _ (Nat.le_refl _) (append_char htext) hquoting).trans ?_
        refine congrArg (fun m => some (Css.minifyFrom m cs)) ?_
        rw [parensAfter, if_congr (isAt_boundary htext (by decide)) rfl rfl,
          if_congr (isAt_boundary htext (by decide)) rfl rfl]
        split
        · rfl
        split
        · rfl
        · rw [← parens_put m [c]]
          rfl

/-- **The minifying pass** succeeds on every text and gives the minified one. -/
theorem minify_eq (css : String) : minify css = some (Css.minify css) := by
  have hminify : minifyFrom (Css.stripComments css.toList) .start 0 =
      some (Css.minifyFrom .start (Css.stripComments css.toList)) := minifyFrom_eq [] _ rfl rfl
  rw [minify, stripComments_eq]
  show (minifyFrom _ _ _).bind _ = _
  rw [hminify]
  rfl

end Offset

end PageLoom.Css
