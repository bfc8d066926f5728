import PageLoom.Css.Balance
import PageLoom.Proofs.Css.Leads

/-!
# Line ends — no token parts one

    A carriage return with a line feed is one line end of two characters.  A
    text may be cut anywhere but between them and both parts still have their
    line ends (`KeepsLineEnd`).  What reads a part of a token takes a run of
    white space or a line end whole, and no other part ends with a carriage
    return; so no token ends inside a line end (`keepsLineEnd_scanToken`).
-/

namespace PageLoom.Css

open Text Token

/-! ## Cuts -/

/-- A cut after `n` characters does not part a carriage return from its line
    feed. -/
def KeepsLineEnd (cs : List Char) (n : Nat) : Prop :=
  (cs.take n).getLast? = some '\r' → (cs.drop n).head? ≠ some '\n'

namespace KeepsLineEnd

theorem zero (cs : List Char) : KeepsLineEnd cs 0 := by
  intro h
  cases h

/-- A cut after a character that is no carriage return. -/
theorem one {c : Char} (hc : c ≠ '\r') (cs : List Char) : KeepsLineEnd (c :: cs) 1 := by
  intro h
  exact absurd (Option.some.inj h) hc

/-- A cut at the end. -/
theorem all {cs : List Char} {n : Nat} (h : cs.drop n = []) : KeepsLineEnd cs n := by
  intro _ hhead
  rw [h] at hhead
  cases hhead

/-- A cut that is not at the start of the rest, after any character. -/
theorem succ {c : Char} {cs : List Char} {n : Nat} (hn : cs ≠ [] → n ≠ 0)
    (h : KeepsLineEnd cs n) : KeepsLineEnd (c :: cs) (n + 1) := by
  cases hmore : cs.take n with
  | nil =>
      cases cs with
      | nil => exact all List.drop_nil
      | cons d ds =>
          rcases List.take_eq_nil_iff.mp hmore with hzero | hnil
          · exact absurd hzero (hn (List.cons_ne_nil d ds))
          · cases hnil
  | cons d ds =>
      intro hlast
      rw [List.take_succ_cons, hmore, List.getLast?_cons_cons, ← hmore] at hlast
      exact h hlast

/-- A cut further on, after a character that is no carriage return. -/
theorem cons {c : Char} {cs : List Char} {n : Nat} (hc : c ≠ '\r') (h : KeepsLineEnd cs n) :
    KeepsLineEnd (c :: cs) (n + 1) := by
  cases n with
  | zero => exact one hc cs
  | succ n => exact succ (fun _ => Nat.succ_ne_zero n) h

/-- Two cuts, one after the other. -/
theorem add {cs : List Char} {n m : Nat} (hn : KeepsLineEnd cs n)
    (hm : KeepsLineEnd (cs.drop n) m) : KeepsLineEnd cs (n + m) := by
  intro hlast hhead
  rw [List.take_add, List.getLast?_append] at hlast
  rw [← List.drop_drop] at hhead
  cases hmore : ((cs.drop n).take m).getLast? with
  | some d =>
      rw [hmore, Option.some_or] at hlast
      exact hm (hmore.trans hlast) hhead
  | none =>
      -- nothing lies between the cuts
      rw [hmore, Option.none_or] at hlast
      rcases List.take_eq_nil_iff.mp (List.getLast?_eq_none_iff.mp hmore) with rfl | hnil
      · exact hn hlast hhead
      · rw [hnil, List.drop_nil] at hhead
        cases hhead

/-- A cut after a run of characters, among which a carriage return is only if a line
    feed is. -/
theorem takeWhile {p : Char → Bool} (hp : p '\r' = true → p '\n' = true) (cs : List Char) :
    KeepsLineEnd cs (cs.takeWhile p).length := by
  intro hlast hhead
  have htake : cs.take (cs.takeWhile p).length = cs.takeWhile p :=
    (List.prefix_iff_eq_take.mp (List.takeWhile_prefix p)).symm
  rw [htake] at hlast
  rw [drop_takeWhile] at hhead
  have hreturn : p '\r' = true :=
    List.all_eq_true.mp List.all_takeWhile _ (List.mem_of_getLast? hlast)
  have hfeed := List.head?_dropWhile_not p cs
  rw [hhead] at hfeed
  exact absurd (hp hreturn) (by simpa using hfeed)

end KeepsLineEnd

open KeepsLineEnd

/-! ## The parts of tokens -/

/-- A cut after a line end. -/
theorem keepsLineEnd_newlineLength (cs : List Char) : KeepsLineEnd cs (newlineLength cs) := by
  unfold newlineLength
  split
  · intro h
    cases h
  · rename_i c cs hpair
    split
    · intro hlast hhead
      obtain ⟨rest, rfl⟩ := List.head?_eq_some_iff.mp hhead
      exact hpair rest (Option.some.inj hlast) rfl
    · exact zero _
  · exact zero _

theorem ne_return_of_not_isNewline {c : Char} (h : ¬isNewline c = true) : c ≠ '\r' := by
  rintro rfl
  exact h rfl

theorem keepsLineEnd_hex (cs : List Char) :
    KeepsLineEnd cs ((cs.take 6).takeWhile isHex).length := by
  intro hlast
  have hprefix : (cs.take 6).takeWhile isHex <+: cs :=
    (List.takeWhile_prefix _).trans (List.take_prefix 6 cs)
  rw [← List.prefix_iff_eq_take.mp hprefix] at hlast
  have hhex := List.all_eq_true.mp List.all_takeWhile _ (List.mem_of_getLast? hlast)
  cases hhex

/-- A cut after an escape whose backslash is read. -/
theorem keepsLineEnd_escape {cs : List Char} (h : ¬startsNewline cs = true) :
    KeepsLineEnd cs (escape cs).2 := by
  unfold escape
  dsimp only
  split
  · exact zero _
  · exact one (ne_return_of_not_isNewline h) _
  · -- hexadecimal digits, then white space that belongs to them
    refine (keepsLineEnd_hex _).add ?_
    split
    · rename_i c rest hrest
      split
      · rename_i hspace
        rw [hrest]
        refine one ?_ rest
        rintro rfl
        cases hspace
      · exact keepsLineEnd_newlineLength _
    · exact zero _

theorem keepsLineEnd_name (cs : List Char) : KeepsLineEnd cs (name cs).2 := by
  fun_induction name cs with
  | case1 => exact zero _
  | case2 c cs hc value length h ih =>
      rw [h] at ih
      refine ih.cons ?_
      rintro rfl
      cases hc
  | case3 c cs hc hslash d k hescape value length h ih =>
      obtain ⟨hc', hline⟩ := Bool.and_eq_true_iff.mp hslash
      rw [h] at ih
      have hcut : KeepsLineEnd cs k := by
        have hend : KeepsLineEnd cs (escape cs).2 := keepsLineEnd_escape (by simpa using hline)
        rwa [hescape] at hend
      rw [Nat.add_comm length k]
      refine (hcut.add ih).cons ?_
      rintro rfl
      cases hc'
  | case4 => exact zero _

theorem keepsLineEnd_string {quote : Char} (hquote : quote ≠ '\r') (cs : List Char) :
    KeepsLineEnd cs (string quote cs).2 := by
  fun_induction string quote cs with
  | case1 => exact zero _
  | case2 c cs hc =>
      rw [beq_iff_eq.mp hc]
      exact one hquote cs
  | case3 => exact zero _
  | case4 c cs hc hline skip kind length h ih =>
      rw [h] at ih
      have hcut : KeepsLineEnd cs skip := by
        show KeepsLineEnd cs (if _ then _ else _)
        split
        · split
          · exact keepsLineEnd_newlineLength cs
          · rename_i hnot
            split
            · exact zero cs
            · exact keepsLineEnd_escape hnot
        · exact zero cs
      rw [Nat.add_comm length skip]
      exact (hcut.add ih).cons (ne_return_of_not_isNewline hline)

/-- White space to the end of a url is taken whole, a line end in it too. -/
theorem length_urlEnd (cs : List Char) :
    (urlEnd cs).2 = (cs.takeWhile isSpace).length + ((cs.dropWhile isSpace).take 1).length := by
  fun_induction urlEnd cs with
  | case1 => rfl
  | case2 c cs hc =>
      rw [beq_iff_eq.mp hc]
      rfl
  | case3 c cs hc hspace kind length h ih =>
      rw [h] at ih
      rw [List.takeWhile_cons_of_pos hspace, List.dropWhile_cons_of_pos hspace, List.length_cons,
        Nat.add_right_comm, ← ih]
  | case4 c cs hc hspace =>
      rw [List.takeWhile_cons_of_neg hspace, List.dropWhile_cons_of_neg hspace]
      rfl

theorem ne_return_of_not_isSpace {c : Char} (h : ¬isSpace c = true) : c ≠ '\r' := by
  rintro rfl
  exact h rfl

theorem keepsLineEnd_urlEnd (cs : List Char) : KeepsLineEnd cs (urlEnd cs).2 := by
  rw [length_urlEnd]
  refine (KeepsLineEnd.takeWhile (fun _ => rfl) cs).add ?_
  rw [drop_takeWhile]
  cases hrest : cs.dropWhile isSpace with
  | nil => exact zero _
  | cons c rest =>
      have hstop := List.head?_dropWhile_not isSpace cs
      rw [hrest] at hstop
      exact one (ne_return_of_not_isSpace (by simpa using hstop)) rest

theorem keepsLineEnd_urlBody (cs : List Char) : KeepsLineEnd cs (urlBody cs).2 := by
  fun_induction urlBody cs with
  | case1 => exact zero _
  | case2 c cs hc =>
      rw [beq_iff_eq.mp hc]
      exact one (by decide) cs
  | case3 c cs hc hspace kind length h =>
      -- the white space begins with this character
      have hend := keepsLineEnd_urlEnd (c :: cs)
      rw [urlEnd, if_neg hc, if_pos hspace] at hend
      rwa [h] at hend
  | case4 c cs hc hspace => exact one (ne_return_of_not_isSpace hspace) cs
  | case5 c cs hc hspace => exact one (ne_return_of_not_isSpace hspace) cs
  | case6 c cs hc hspace hplain hline skip kind length h ih =>
      rw [h] at ih
      have hcut : KeepsLineEnd cs skip := by
        show KeepsLineEnd cs (if _ then _ else _)
        split
        · rename_i hslash
          refine keepsLineEnd_escape fun hnew => hline ?_
          rw [hslash, hnew]
          rfl
        · exact zero cs
      rw [Nat.add_comm length skip]
      exact (hcut.add ih).cons (ne_return_of_not_isSpace hspace)

theorem keepsLineEnd_url (cs : List Char) : KeepsLineEnd cs (url cs).2 := by
  have hgap : KeepsLineEnd cs (cs.takeWhile isSpace).length :=
    KeepsLineEnd.takeWhile (fun _ => rfl) cs
  unfold url
  dsimp only
  split
  · exact hgap
  · rename_i c rest hrest
    split
    · exact zero cs
    · refine hgap.add ?_
      rw [hrest]
      exact keepsLineEnd_urlBody (c :: rest)

theorem keepsLineEnd_nameLike (cs : List Char) : KeepsLineEnd cs (nameLike cs).2 := by
  have hname := keepsLineEnd_name cs
  unfold nameLike
  dsimp only
  split
  · rename_i rest hrest
    have hopen : KeepsLineEnd cs ((name cs).2 + 1) := by
      refine hname.add ?_
      rw [hrest]
      exact one (by decide) rest
    split
    · refine hopen.add ?_
      rw [← List.drop_drop, hrest]
      exact keepsLineEnd_url rest
    · exact hopen
  · exact hname

theorem keepsLineEnd_digits (cs : List Char) : KeepsLineEnd cs (digits cs) :=
  KeepsLineEnd.takeWhile (fun h => absurd h (by decide)) cs

theorem keepsLineEnd_fraction (cs : List Char) : KeepsLineEnd cs (fraction cs) := by
  unfold fraction
  split
  · split
    · exact (keepsLineEnd_digits _).cons (by decide)
    · exact zero _
  · exact zero _

theorem keepsLineEnd_exponent (cs : List Char) : KeepsLineEnd cs (exponent cs) := by
  unfold exponent
  split
  · rename_i e cs
    split
    · rename_i he
      have hletter : e ≠ '\r' := by
        rintro rfl
        cases he
      split
      · rename_i s rest
        split
        · exact (keepsLineEnd_digits _).cons hletter
        · split
          · rename_i hsign
            have hs : s ≠ '\r' := by
              rintro rfl
              cases hsign
            exact ((keepsLineEnd_digits rest).cons hs).cons hletter
          · exact zero _
      · exact zero _
    · exact zero _
  · exact zero _

theorem keepsLineEnd_numeric (cs : List Char) : KeepsLineEnd cs (numeric cs) := by
  have hnumber : KeepsLineEnd cs (digits cs + fraction (cs.drop (digits cs)) +
      exponent (cs.drop (digits cs + fraction (cs.drop (digits cs))))) :=
    ((keepsLineEnd_digits cs).add (keepsLineEnd_fraction _)).add (keepsLineEnd_exponent _)
  unfold numeric
  dsimp only
  split
  · rename_i rest hrest
    refine hnumber.add ?_
    rw [hrest]
    exact one (by decide) rest
  · split
    · exact hnumber.add (keepsLineEnd_name _)
    · exact hnumber

theorem keepsLineEnd_comment (cs : List Char) : KeepsLineEnd cs (comment cs) := by
  fun_induction comment cs with
  | case1 => exact zero _
  | case2 cs => exact (one (by decide) cs).cons (by decide)
  | case3 c cs hend ih =>
      refine succ (fun hne hzero => ?_) ih
      obtain ⟨d, ds, rfl⟩ := List.exists_cons_of_ne_nil hne
      unfold comment at hzero
      split at hzero
      · rename_i heq
        cases heq
      · cases hzero
      · cases hzero

/-! ## Tokens -/

theorem keepsLineEnd_withNext (t : List Char) : KeepsLineEnd t (withNext '=' t).2 := by
  cases t with
  | nil => exact zero _
  | cons d t =>
      show KeepsLineEnd (d :: t) (if d = '=' then 1 else 0)
      split
      · rename_i hd
        rw [hd]
        exact one (by decide) t
      · exact zero _

/-- What is read with its first character, that character counted once. -/
theorem KeepsLineEnd.pred {c : Char} {t : List Char} {n : Nat} (hc : c ≠ '\r')
    (h : KeepsLineEnd (c :: t) n) : KeepsLineEnd (c :: t) (n - 1 + 1) := by
  cases n with
  | zero => exact one hc t
  | succ n => exact h

/-- A cut after characters that are known. -/
theorem KeepsLineEnd.of_take {t a : List Char} {n : Nat} (h : t.take n = a)
    (ha : a.getLast? ≠ some '\r') : KeepsLineEnd t n := by
  intro hlast
  rw [h] at hlast
  exact absurd hlast ha

/-- **No token ends inside a line end.** -/
theorem keepsLineEnd_scanToken (c : Char) (t : List Char) :
    KeepsLineEnd (c :: t) ((scanToken c t).2 + 1) := by
  unfold scanToken
  split
  · rename_i hspace
    have hrun : KeepsLineEnd (c :: t) ((c :: t).takeWhile isSpace).length :=
      KeepsLineEnd.takeWhile (fun _ => rfl) (c :: t)
    rw [List.takeWhile_cons_of_pos hspace] at hrun
    exact hrun
  rename_i hspace
  have hc : c ≠ '\r' := ne_return_of_not_isSpace hspace
  have hname : KeepsLineEnd (c :: t) ((fromName c t).2 + 1) :=
    (keepsLineEnd_nameLike (c :: t)).pred hc
  have hnumeric : KeepsLineEnd (c :: t) (Token.numeric (c :: t) - 1 + 1) :=
    (keepsLineEnd_numeric (c :: t)).pred hc
  split
  · exact hnumeric
  split
  · exact hname
  split
  · exact (keepsLineEnd_string (by decide) t).cons hc
  · exact (keepsLineEnd_string (by decide) t).cons hc
  · refine KeepsLineEnd.cons hc ?_
    dsimp only
    split
    · exact keepsLineEnd_name t
    · exact zero t
  · refine KeepsLineEnd.cons hc ?_
    dsimp only
    split
    · exact keepsLineEnd_name t
    · exact zero t
  iterate 6 exact one hc t
  · refine KeepsLineEnd.cons hc ?_
    dsimp only
    split
    · exact keepsLineEnd_numeric t
    · exact zero t
  · dsimp only
    split
    · exact hnumeric
    · exact one hc t
  · split
    · exact (keepsLineEnd_numeric t).cons hc
    split
    · rename_i htake
      exact (KeepsLineEnd.of_take (beq_iff_eq.mp htake) (by decide)).cons hc
    split
    · exact hname
    · exact one hc t
  · refine KeepsLineEnd.cons hc ?_
    dsimp only
    split
    · rename_i hstar
      obtain ⟨s, rfl⟩ := List.head?_eq_some_iff.mp (beq_iff_eq.mp hstar)
      exact (one (by decide) s).add (keepsLineEnd_comment s)
    · exact zero t
  · refine KeepsLineEnd.cons hc ?_
    dsimp only
    split
    · rename_i htake
      exact KeepsLineEnd.of_take (beq_iff_eq.mp htake) (by decide)
    · exact zero t
  · split
    · exact one hc t
    · exact hname
  iterate 5 exact (keepsLineEnd_withNext t).cons hc
  exact one hc t

end PageLoom.Css
