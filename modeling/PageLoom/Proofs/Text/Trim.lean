import PageLoom.Proofs.Text.Letters
import PageLoom.Text.Blank

/-!
# Trimming — what it leaves and where it stops

    Trimming splits a text into a blank lead, the kept text and a blank
    rest, and the kept text starts and ends with a character that is not
    blank (`exists_trim`).  Conversely a text that is solid at both ends is
    what trimming leaves of it between any two blank texts
    (`trim_between`).
-/

namespace PageLoom.Text

/-- A text of white space only. -/
def AllBlank (cs : List Char) : Prop :=
  ∀ c ∈ cs, isBlank c = true

instance (cs : List Char) : Decidable (AllBlank cs) :=
  List.decidableBAll _ cs

/-- A text that neither starts nor ends with white space. -/
def Solid (cs : List Char) : Prop :=
  (∀ c, cs.head? = some c → isBlank c = false) ∧
    ∀ c, cs.getLast? = some c → isBlank c = false

theorem solid_nil : Solid [] := by
  constructor
  · intro c hc
    cases hc
  · intro c hc
    cases hc

/-- A text of stylesheet white space only. -/
def AllSpacing (cs : List Char) : Prop :=
  ∀ c ∈ cs, isSpacing c = true

instance (cs : List Char) : Decidable (AllSpacing cs) :=
  List.decidableBAll _ cs

theorem AllSpacing.allBlank {cs : List Char} (h : AllSpacing cs) : AllBlank cs :=
  fun c hc => isBlank_of_isSpacing (h c hc)

theorem allBlank_nil : AllBlank [] := by
  intro c hc
  cases hc

theorem allBlank_cons {c : Char} {cs : List Char} :
    AllBlank (c :: cs) ↔ isBlank c = true ∧ AllBlank cs :=
  List.forall_mem_cons

theorem allBlank_append {a b : List Char} :
    AllBlank (a ++ b) ↔ AllBlank a ∧ AllBlank b :=
  List.forall_mem_append

theorem allBlank_iff_all {cs : List Char} : cs.all isBlank = true ↔ AllBlank cs :=
  List.all_eq_true

/-- No letter or digit is white space. -/
theorem isAlphanum_of_isBlank {c : Char} (h : isBlank c = true) : c.isAlphanum = false := by
  have hrange : (9 ≤ c.toNat ∧ c.toNat ≤ 13) ∨ c.toNat = 32 ∨ 133 ≤ c.toNat := by
    simp only [isBlank, Bool.or_eq_true, Bool.and_eq_true, decide_eq_true_eq, beq_iff_eq] at h
    omega
  refine Bool.eq_false_iff.mpr fun halphanum => ?_
  have hcode := isAlphanum_iff.mp halphanum
  omega

/-- White space is no character that is not. -/
theorem ne_of_isBlank {c d : Char} (h : isBlank c = true) (hd : isBlank d = false) : c ≠ d := by
  rintro rfl
  exact Bool.false_ne_true (hd.symm.trans h)

/-- A single line end is white space. -/
theorem allBlank_newline : AllBlank ['\n'] := by
  intro c hc
  rw [List.mem_singleton.mp hc]
  decide

/-! ## The start -/

/-- White space before a text is not seen by trimming. -/
theorem trimStart_append {a : List Char} (ha : AllBlank a) (b : List Char) :
    trimStart (a ++ b) = trimStart b :=
  List.dropWhile_append_of_pos ha

/-- A text that starts with a solid character keeps its start. -/
theorem trimStart_of_head {cs : List Char}
    (h : ∀ c, cs.head? = some c → isBlank c = false) : trimStart cs = cs := by
  cases cs with
  | nil => rfl
  | cons c cs =>
      have hc : isBlank c = false := h c rfl
      show (c :: cs).dropWhile isBlank = c :: cs
      rw [List.dropWhile_cons, if_neg (by rw [hc]; exact Bool.false_ne_true)]

/-- Trimming the start takes off a blank lead, and what it leaves starts with
    a solid character. -/
theorem exists_trimStart (cs : List Char) :
    ∃ a, AllBlank a ∧ cs = a ++ trimStart cs ∧
      ∀ c, (trimStart cs).head? = some c → isBlank c = false := by
  induction cs with
  | nil => exact ⟨[], allBlank_nil, rfl, fun c hc => by cases hc⟩
  | cons c cs ih =>
      cases hc : isBlank c with
      | true =>
          obtain ⟨a, ha, hcs, hhead⟩ := ih
          have hstep : trimStart (c :: cs) = trimStart cs := by
            show (c :: cs).dropWhile isBlank = cs.dropWhile isBlank
            rw [List.dropWhile_cons, if_pos hc]
          refine ⟨c :: a, allBlank_cons.mpr ⟨hc, ha⟩, ?_, ?_⟩
          · rw [hstep, List.cons_append, ← hcs]
          · rw [hstep]
            exact hhead
      | false =>
          have hstep : trimStart (c :: cs) = c :: cs :=
            trimStart_of_head (by rintro x ⟨rfl⟩; exact hc)
          refine ⟨[], allBlank_nil, ?_, ?_⟩
          · rw [hstep, List.nil_append]
          · rw [hstep]
            rintro x ⟨rfl⟩
            exact hc

/-- Trimming the start goes no further than a solid character. -/
theorem trimStart_append_cons {c : Char} (hc : isBlank c = false) (a b : List Char) :
    trimStart (a ++ c :: b) = trimStart a ++ c :: b := by
  induction a with
  | nil =>
      rw [List.nil_append, trimStart_of_head]
      · rfl
      · rintro x ⟨rfl⟩
        exact hc
  | cons d a ih =>
      show (d :: (a ++ c :: b)).dropWhile isBlank = (d :: a).dropWhile isBlank ++ c :: b
      rw [List.dropWhile_cons, List.dropWhile_cons]
      split
      · exact ih
      · rfl

/-! ## The end -/

private theorem trimEnd_cons (c : Char) (cs : List Char) :
    trimEnd (c :: cs) =
      match trimEnd cs with
      | [] => if isBlank c then [] else [c]
      | kept => c :: kept := rfl

/-- Nothing of a blank text is left. -/
theorem trimEnd_of_allBlank {cs : List Char} (h : AllBlank cs) : trimEnd cs = [] := by
  induction cs with
  | nil => rfl
  | cons c cs ih =>
      obtain ⟨hc, hcs⟩ := allBlank_cons.mp h
      rw [trimEnd_cons, ih hcs]
      exact if_pos hc

/-- Trimming the end takes off a blank rest, and what it leaves ends with a
    solid character. -/
theorem exists_trimEnd (cs : List Char) :
    ∃ b, AllBlank b ∧ cs = trimEnd cs ++ b ∧
      ∀ c, (trimEnd cs).getLast? = some c → isBlank c = false := by
  induction cs with
  | nil => exact ⟨[], allBlank_nil, rfl, fun c hc => by cases hc⟩
  | cons c cs ih =>
      obtain ⟨b, hb, hcs, hlast⟩ := ih
      cases hk : trimEnd cs with
      | nil =>
          rw [hk, List.nil_append] at hcs
          cases hc : isBlank c with
          | true =>
              have hstep : trimEnd (c :: cs) = [] := by
                rw [trimEnd_cons, hk]
                exact if_pos hc
              refine ⟨c :: b, allBlank_cons.mpr ⟨hc, hb⟩, ?_, ?_⟩
              · rw [hstep, hcs, List.nil_append]
              · rw [hstep]
                exact fun x hx => by cases hx
          | false =>
              have hstep : trimEnd (c :: cs) = [c] := by
                rw [trimEnd_cons, hk]
                exact if_neg (by rw [hc]; exact Bool.false_ne_true)
              refine ⟨b, hb, ?_, ?_⟩
              · rw [hstep, hcs, List.singleton_append]
              · rw [hstep]
                rintro x ⟨rfl⟩
                exact hc
      | cons k ks =>
          have hstep : trimEnd (c :: cs) = c :: k :: ks := by
            rw [trimEnd_cons, hk]
          refine ⟨b, hb, ?_, ?_⟩
          · rw [hstep, List.cons_append, ← hk, ← hcs]
          · rw [hstep, List.getLast?_cons_cons, ← hk]
            exact hlast

/-- White space after a text is not seen by trimming. -/
theorem trimEnd_append {b : List Char} (hb : AllBlank b) (a : List Char) :
    trimEnd (a ++ b) = trimEnd a := by
  induction a with
  | nil => exact trimEnd_of_allBlank hb
  | cons c a ih =>
      rw [List.cons_append, trimEnd_cons, trimEnd_cons, ih]

/-- A text that ends with a solid character keeps its end. -/
theorem trimEnd_of_last {cs : List Char}
    (h : ∀ c, cs.getLast? = some c → isBlank c = false) : trimEnd cs = cs := by
  obtain ⟨b, hb, hcs, -⟩ := exists_trimEnd cs
  rcases List.eq_nil_or_concat b with hnil | ⟨b', c, hbc⟩
  · rw [hnil, List.append_nil] at hcs
    exact hcs.symm
  · -- the last character would be blank and solid at once
    exfalso
    have hlast : cs.getLast? = some c := by
      rw [hcs, hbc, List.concat_eq_append, ← List.append_assoc, List.getLast?_concat]
    have hblank : isBlank c = true :=
      hb c (by rw [hbc, List.concat_eq_append]; exact List.mem_append_right _ (List.mem_singleton_self c))
    rw [h c hlast] at hblank
    exact Bool.false_ne_true hblank

/-- Trimming the end goes no further than a solid character. -/
theorem trimEnd_append_cons {c : Char} (hc : isBlank c = false) (a b : List Char) :
    trimEnd (a ++ c :: b) = a ++ c :: trimEnd b := by
  induction a with
  | nil =>
      rw [List.nil_append, List.nil_append, trimEnd_cons, hc]
      cases trimEnd b with
      | nil => rfl
      | cons k ks => rfl
  | cons d a ih =>
      rw [List.cons_append, trimEnd_cons, ih]
      cases a with
      | nil => rfl
      | cons x a => rfl

/-! ## Both ends -/

/-- **Trimming between blanks** leaves a solid text as it is. -/
theorem trim_between {a w b : List Char} (ha : AllBlank a) (hw : Solid w) (hb : AllBlank b) :
    trim (a ++ w ++ b) = w := by
  show trimEnd (trimStart (a ++ w ++ b)) = w
  cases w with
  | nil =>
      have hab : AllBlank (a ++ ([] : List Char) ++ b) :=
        allBlank_append.mpr ⟨allBlank_append.mpr ⟨ha, allBlank_nil⟩, hb⟩
      rw [← List.append_nil (a ++ [] ++ b), trimStart_append hab]
      rfl
  | cons c w =>
      rw [List.append_assoc, trimStart_append ha,
        trimStart_of_head (fun x hx => hw.1 x (by simpa using hx)), trimEnd_append hb,
        trimEnd_of_last hw.2]

/-- A solid character at the end is kept, and with it what stands before it. -/
theorem trim_concat {c : Char} (hc : isBlank c = false) (u : List Char) :
    trim (u ++ [c]) = trimStart u ++ [c] := by
  obtain ⟨a, ha, hsplit, hhead⟩ := exists_trimStart u
  have hsolid : Solid (trimStart u ++ [c]) := by
    constructor
    · intro x hx
      rw [List.head?_append] at hx
      cases hstart : (trimStart u).head? with
      | none =>
          rw [hstart] at hx
          obtain rfl : c = x := Option.some.inj hx
          exact hc
      | some y =>
          rw [hstart] at hx
          obtain rfl : y = x := Option.some.inj hx
          exact hhead y hstart
    · intro x hx
      rw [List.getLast?_concat] at hx
      obtain rfl : c = x := Option.some.inj hx
      exact hc
  have hwhole : u ++ [c] = a ++ (trimStart u ++ [c]) ++ [] := by
    rw [List.append_nil, ← List.append_assoc, ← hsplit]
  rw [hwhole]
  exact trim_between ha hsolid allBlank_nil

/-- **What trimming takes off** is blank, and what it leaves is solid. -/
theorem exists_trim (cs : List Char) :
    ∃ a b, AllBlank a ∧ AllBlank b ∧ cs = a ++ trim cs ++ b ∧ Solid (trim cs) := by
  obtain ⟨a, ha, hcs, hhead⟩ := exists_trimStart cs
  obtain ⟨b, hb, hkept, hlast⟩ := exists_trimEnd (trimStart cs)
  have htrim : trimEnd (trimStart cs) = trim cs := rfl
  rw [htrim] at hkept hlast
  refine ⟨a, b, ha, hb, ?_, ?_, hlast⟩
  · rw [List.append_assoc, ← hkept, ← hcs]
  · intro c hc
    refine hhead c ?_
    rw [hkept, List.head?_append, hc]
    rfl

/-- Blank texts around a text are not seen by trimming. -/
theorem trim_append {a b : List Char} (ha : AllBlank a) (hb : AllBlank b) (cs : List Char) :
    trim (a ++ cs ++ b) = trim cs := by
  obtain ⟨a', b', ha', hb', hcs, hsolid⟩ := exists_trim cs
  have hsplit : a ++ cs ++ b = (a ++ a') ++ trim cs ++ (b' ++ b) := by
    calc a ++ cs ++ b
        = a ++ (a' ++ trim cs ++ b') ++ b := by rw [← hcs]
      _ = (a ++ a') ++ trim cs ++ (b' ++ b) := by simp only [List.append_assoc]
  rw [hsplit]
  exact trim_between (allBlank_append.mpr ⟨ha, ha'⟩) hsolid (allBlank_append.mpr ⟨hb', hb⟩)

/-- A solid text is left as it is. -/
theorem trim_of_solid {w : List Char} (hw : Solid w) : trim w = w := by
  have h := trim_between allBlank_nil hw allBlank_nil
  rwa [List.nil_append, List.append_nil] at h

/-- A text with solid ends after a blank lead is where the trimmed text starts. -/
theorem prefix_trim {a x : List Char} (ha : AllBlank a) (hx : Solid x) (b : List Char) :
    x <+: trim (a ++ x ++ b) := by
  cases x with
  | nil => exact List.nil_prefix
  | cons c x =>
      have hstart : trim (a ++ (c :: x) ++ b) = trimEnd (c :: x ++ b) := by
        show trimEnd (trimStart (a ++ (c :: x) ++ b)) = _
        rw [List.append_assoc, trimStart_append ha, trimStart_of_head]
        exact fun d hd => hx.1 d (by simpa using hd)
      rw [hstart]
      obtain ⟨r, hr, hsplit, -⟩ := exists_trimEnd (c :: x ++ b)
      rcases List.append_eq_append_iff.mp hsplit with ⟨y, hy, -⟩ | ⟨y, hy, hyr⟩
      · rw [hy]
        exact List.prefix_append _ _
      · rcases List.eq_nil_or_concat y with rfl | ⟨z, d, rfl⟩
        · rw [List.append_nil] at hy
          exact ⟨[], (List.append_nil _).trans hy⟩
        · -- the last solid character would have been taken off as blank
          exfalso
          rw [List.concat_eq_append] at hy hyr
          have hlast : (c :: x).getLast? = some d := by
            rw [hy, ← List.append_assoc, List.getLast?_concat]
          have hblank : isBlank d = true := hr d (by rw [hyr]; simp)
          rw [hx.2 d hlast] at hblank
          exact Bool.false_ne_true hblank

/-- Solid characters are not trimmed. -/
theorem mem_trim {c : Char} {cs : List Char} (h : c ∈ cs) (hc : isBlank c = false) :
    c ∈ trim cs := by
  obtain ⟨a, b, ha, hb, hcs, -⟩ := exists_trim cs
  rw [hcs] at h
  rcases List.mem_append.mp h with h | h
  · rcases List.mem_append.mp h with h | h
    · rw [ha c h] at hc
      cases hc
    · exact h
  · rw [hb c h] at hc
    cases hc

/-- A text is blank exactly when trimming leaves nothing. -/
theorem trim_eq_nil_iff {cs : List Char} : trim cs = [] ↔ AllBlank cs := by
  constructor
  · intro h
    obtain ⟨a, b, ha, hb, hcs, -⟩ := exists_trim cs
    rw [hcs, h, List.append_nil]
    exact allBlank_append.mpr ⟨ha, hb⟩
  · intro h
    have hcs := trim_between h solid_nil allBlank_nil
    rwa [List.append_nil, List.append_nil] at hcs

end PageLoom.Text
