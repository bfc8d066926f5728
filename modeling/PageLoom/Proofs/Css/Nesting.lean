import PageLoom.Proofs.Css.Scan

/-!
# Nesting — braces and strings that close where they open

    A text is self-contained when a scan that skips strings never meets a
    closing brace with nothing open, and ends outside strings with nothing
    open.  Whatever follows such a text is read as if it stood alone
    (`SelfContained.append_iff`).

    A piece that ends where it should either is self-contained or closes a
    block around it (`Sinks`), and a text of such pieces tells by one of the
    two whether something holds of all of them (`Tells`).  Leads without
    quotes and braces make no difference (`Alike`).
-/

namespace PageLoom.Css

open Text

/-! ## Nesting -/

/-- The counter of open braces, for which a closing brace with nothing open is
    a cut. -/
def nesting : Counter := fun n c =>
  if c = '{' then some (n + 1)
  else if c = '}' then if 0 < n then some (n - 1) else none
  else some n

/-- **A self-contained text**: the brace depth never goes below zero, and the
    text ends at depth zero and outside strings. -/
def SelfContained (t : List Char) : Prop :=
  Quoting.code.after t = .code ∧ levelAfter nesting .code 0 t = some 0

instance (t : List Char) : Decidable (SelfContained t) :=
  inferInstanceAs (Decidable (_ ∧ _))

/-- A text that closes a block around it. -/
def Sinks (t : List Char) : Prop :=
  Quoting.code.after t = .code ∧ ∀ n m, levelAfter nesting .code n t = some m → m < n

/-- A character goes one level up, one level down, or stays. -/
theorem nesting_cases {n l : Nat} {c : Char} (h : nesting n c = some l) :
    (c = '{' ∧ l = n + 1) ∨ (c = '}' ∧ 0 < n ∧ l = n - 1) ∨ (c ≠ '{' ∧ c ≠ '}' ∧ l = n) := by
  rw [nesting] at h
  split at h
  · rename_i hopen
    exact Or.inl ⟨hopen, (Option.some.inj h).symm⟩
  · rename_i hopen
    split at h
    · rename_i hclose
      split at h
      · rename_i hn
        exact Or.inr (Or.inl ⟨hclose, hn, (Option.some.inj h).symm⟩)
      · cases h
    · rename_i hclose
      exact Or.inr (Or.inr ⟨hopen, hclose, (Option.some.inj h).symm⟩)

theorem nesting_close (n : Nat) : nesting (n + 1) '}' = some n := rfl

theorem nesting_other {c : Char} (h : c ≠ '{' ∧ c ≠ '}') (n : Nat) : nesting n c = some n := by
  rw [nesting, if_neg h.1, if_neg h.2]

theorem skipsBlanks_nesting : SkipsBlanks nesting := by
  intro c hc n
  exact nesting_other ⟨ne_of_isBlank hc (by decide), ne_of_isBlank hc (by decide)⟩ n

/-- **More blocks around a text** are open after it as well. -/
theorem nesting_add {q : Quoting} {n m : Nat} {t : List Char}
    (h : levelAfter nesting q n t = some m) (k : Nat) :
    levelAfter nesting q (n + k) t = some (m + k) := by
  induction t generalizing q n with
  | nil => exact congrArg (some <| · + k) (Option.some.inj h)
  | cons c t ih =>
      obtain ⟨l, hc, h⟩ := exists_levelNext h
      have hstep : levelNext nesting q (n + k) c = some (l + k) := by
        rcases levelNext_eq_some hc with ⟨hq, rfl⟩ | ⟨rfl, hk⟩
        · exact levelNext_of_ne hq _ _ _
        · rw [levelNext_code]
          rcases nesting_cases hk with ⟨rfl, rfl⟩ | ⟨rfl, hn, rfl⟩ | ⟨h1, h2, rfl⟩
          · exact congrArg some (by omega)
          · obtain ⟨n, rfl⟩ := Nat.exists_eq_add_of_lt hn
            rw [show 0 + n + 1 + k = (n + k) + 1 by omega, nesting_close]
            exact congrArg some (by omega)
          · exact nesting_other ⟨h1, h2⟩ _
      rw [levelAfter_cons_of_some hstep]
      exact ih h

/-- Where segmentation cuts nothing, it counts the same braces. -/
theorem nesting_of_braces {q : Quoting} {n m : Nat} {t : List Char}
    (h : levelAfter braces q n t = some m) : levelAfter nesting q n t = some m := by
  induction t generalizing q n with
  | nil => exact h
  | cons c t ih =>
      obtain ⟨l, hc, h⟩ := exists_levelNext h
      have hstep : levelNext nesting q n c = some l := by
        rcases levelNext_eq_some hc with ⟨hq, rfl⟩ | ⟨rfl, hk⟩
        · exact levelNext_of_ne hq _ _ _
        · rw [levelNext_code]
          rcases braces_cases hk with ⟨rfl, rfl⟩ | ⟨rfl, hn, rfl⟩ | ⟨h1, h2, -, rfl⟩
          · rfl
          · rw [nesting, if_neg (by decide), if_pos rfl, if_pos (by omega)]
          · exact nesting_other ⟨h1, h2⟩ _
      rw [levelAfter_cons_of_some hstep]
      exact ih h

/-! ## Texts one after the other -/

/-- A self-contained text keeps whatever level it starts at. -/
theorem SelfContained.level {t : List Char} (h : SelfContained t) (n : Nat) :
    levelAfter nesting .code n t = some n := by
  have hadd := nesting_add h.2 n
  rwa [Nat.zero_add] at hadd

/-- White space is self-contained. -/
theorem selfContained_of_allBlank {t : List Char} (h : AllBlank t) : SelfContained t :=
  ⟨Quoting.code_after_allBlank h, levelAfter_allBlank skipsBlanks_nesting h .code 0⟩

/-- After a self-contained text everything stands as before it. -/
theorem SelfContained.append_iff {a : List Char} (h : SelfContained a) (b : List Char) :
    SelfContained (a ++ b) ↔ SelfContained b := by
  rw [SelfContained, Quoting.after_append, h.1, levelAfter_append_of_some h.2, h.1]
  exact Iff.rfl

/-- After a text that sinks nothing helps. -/
theorem Sinks.not_selfContained_append {a : List Char} (h : Sinks a) (b : List Char) :
    ¬SelfContained (a ++ b) := by
  rintro ⟨-, hlevel⟩
  obtain ⟨m, hm, -⟩ := exists_levelAfter_of_append hlevel
  exact absurd (h.2 0 m hm) (Nat.not_lt_zero m)

/-- A text that closes a block around it does so with more text after it, unless
    that opens a block. -/
theorem Sinks.append {a b : List Char} (h : Sinks a) (hb : SelfContained b ∨ Sinks b) :
    Sinks (a ++ b) := by
  refine ⟨?_, fun n m hlevel => ?_⟩
  · rw [Quoting.after_append, h.1]
    exact hb.elim And.left And.left
  · obtain ⟨l, hl, hrest⟩ := exists_levelAfter_of_append hlevel
    rw [h.1] at hrest
    have hlow := h.2 n l hl
    rcases hb with hb | hb
    · rw [hb.level] at hrest
      obtain rfl : l = m := Option.some.inj hrest
      exact hlow
    · exact Nat.lt_trans (hb.2 l m hrest) hlow

/-- A text that closes a block around it does so after a self-contained one. -/
theorem SelfContained.append_sinks {a b : List Char} (h : SelfContained a) (hb : Sinks b) :
    Sinks (a ++ b) := by
  refine ⟨?_, fun n m hlevel => hb.2 n m ?_⟩
  · rw [Quoting.after_append, h.1, hb.1]
  · rwa [levelAfter_append_of_some (h.level n), h.1] at hlevel

/-- **A closing brace** after a text with one block open at most. -/
theorem closed_or_sinks {x : List Char} {n : Nat} (hx : Quoting.code.after x = .code)
    (hlevel : levelAfter nesting .code 0 x = some n) (hn : n ≤ 1) :
    SelfContained (x ++ ['}']) ∨ Sinks (x ++ ['}']) := by
  have hcode : Quoting.code.after (x ++ ['}']) = .code := by
    rw [Quoting.after_append, hx]
    rfl
  match n, hn with
  | 1, _ =>
      refine Or.inl ⟨hcode, ?_⟩
      rw [levelAfter_append_of_some hlevel, hx]
      rfl
  | 0, _ =>
      refine Or.inr ⟨hcode, fun k m hm => ?_⟩
      have hadd := nesting_add hlevel k
      rw [Nat.zero_add] at hadd
      rw [levelAfter_append_of_some hadd, hx] at hm
      obtain ⟨l, hl, hnil⟩ := exists_levelNext hm
      obtain rfl : l = m := Option.some.inj hnil
      rw [levelNext_code] at hl
      rcases nesting_cases hl with ⟨h, -⟩ | ⟨-, hk, rfl⟩ | ⟨-, h, -⟩
      · cases h
      · omega
      · exact absurd rfl h

/-! ## Telling texts -/

/-- A text that tells whether something holds: it is self-contained if it does,
    and sinks if it does not. -/
structure Tells (t : List Char) (P : Prop) : Prop where
  contained : P → SelfContained t
  sinks : ¬P → Sinks t

namespace Tells

variable {a b : List Char} {P Q : Prop}

theorem selfContained_or_sinks (h : Tells a P) : SelfContained a ∨ Sinks a := by
  by_cases hP : P
  · exact Or.inl (h.contained hP)
  · exact Or.inr (h.sinks hP)

theorem append (ha : Tells a P) (hb : Tells b Q) : Tells (a ++ b) (P ∧ Q) where
  contained := fun h => ((ha.contained h.1).append_iff b).mpr (hb.contained h.2)
  sinks := by
    intro h
    by_cases hP : P
    · exact (ha.contained hP).append_sinks (hb.sinks fun hQ => h ⟨hP, hQ⟩)
    · exact (ha.sinks hP).append hb.selfContained_or_sinks

/-- A telling text before any other. -/
theorem append_iff (ha : Tells a P) (b : List Char) (hb : SelfContained b ↔ Q) :
    SelfContained (a ++ b) ↔ P ∧ Q := by
  by_cases hP : P
  · rw [(ha.contained hP).append_iff, hb]
    exact (and_iff_right hP).symm
  · exact iff_of_false ((ha.sinks hP).not_selfContained_append b) fun h => hP h.1

/-- **In a block** a text tells the same. -/
theorem block {heading : List Char} (hheading : SelfContained heading) (h : Tells a P) :
    Tells (heading ++ ['{', '\n'] ++ a ++ ['\n', '}']) P := by
  have hopen : ∀ k, levelAfter nesting .code k (heading ++ ['{', '\n']) = some (k + 1) := by
    intro k
    rw [levelAfter_append_of_some (hheading.level k), hheading.1]
    rfl
  have hcode : Quoting.code.after (heading ++ ['{', '\n']) = .code := by
    rw [Quoting.after_append, hheading.1]
    rfl
  have hends : ∀ t, Quoting.code.after t = .code →
      Quoting.code.after (heading ++ ['{', '\n'] ++ t ++ ['\n', '}']) = .code := by
    intro t ht
    rw [Quoting.after_append, Quoting.after_append, hcode, ht]
    rfl
  constructor
  · intro hP
    have ha := h.contained hP
    refine ⟨hends a ha.1, ?_⟩
    rw [List.append_assoc, levelAfter_append_of_some (hopen 0), hcode,
      levelAfter_append_of_some (ha.level 1), ha.1]
    rfl
  · intro hP
    have ha := h.sinks hP
    refine ⟨hends a ha.1, fun k m hm => ?_⟩
    rw [List.append_assoc, levelAfter_append_of_some (hopen k), hcode] at hm
    obtain ⟨l, hl, hclose⟩ := exists_levelAfter_of_append hm
    have hlow := ha.2 _ l hl
    rw [ha.1] at hclose
    -- the closing brace ends one more block
    cases l with
    | zero => cases hclose
    | succ l =>
        obtain rfl : l = m := Option.some.inj hclose
        omega

end Tells

/-! ## Texts that are alike -/

/-- A text without quotes and braces. -/
def Unseen (t : List Char) : Prop :=
  ∀ c ∈ t, isQuote c = false ∧ c ≠ '{' ∧ c ≠ '}'

instance (t : List Char) : Decidable (Unseen t) :=
  List.decidableBAll _ t

theorem Unseen.append {a b : List Char} (ha : Unseen a) (hb : Unseen b) : Unseen (a ++ b) :=
  List.forall_mem_append.mpr ⟨ha, hb⟩

/-- Two texts that no scan for strings and braces tells apart. -/
def Alike (a b : List Char) : Prop :=
  Quoting.code.after a = Quoting.code.after b ∧
    ∀ n, levelAfter nesting .code n a = levelAfter nesting .code n b

namespace Alike

variable {a a' b b' c : List Char}

theorem refl (a : List Char) : Alike a a :=
  ⟨rfl, fun _ => rfl⟩

theorem symm (h : Alike a b) : Alike b a :=
  ⟨h.1.symm, fun n => (h.2 n).symm⟩

theorem trans (h : Alike a b) (h' : Alike b c) : Alike a c :=
  ⟨h.1.trans h'.1, fun n => (h.2 n).trans (h'.2 n)⟩

/-- A lead without quotes and braces is not seen. -/
theorem lead (ha : Unseen a) (b : List Char) : Alike (a ++ b) b := by
  have hcode := Quoting.code_after_of_not_quote fun c hc => (ha c hc).1
  have hskips : ∀ c ∈ a, Skips nesting c := fun c hc => nesting_other (ha c hc).2
  refine ⟨?_, fun n => ?_⟩
  · rw [Quoting.after_append, hcode]
  · rw [levelAfter_append_of_some (levelAfter_of_skips hskips .code n), hcode]

theorem append (h : Alike a a') (ha : Quoting.code.after a' = .code) (h' : Alike b b') :
    Alike (a ++ b) (a' ++ b') := by
  refine ⟨?_, fun n => ?_⟩
  · rw [Quoting.after_append, Quoting.after_append, h.1, ha, h'.1]
  · rw [levelAfter_append, levelAfter_append, h.1, ha, h.2]
    exact congrArg _ (funext h'.2)

/-- Texts that are alike are self-contained together. -/
theorem selfContained_iff (h : Alike a b) : SelfContained a ↔ SelfContained b := by
  rw [SelfContained, h.1, h.2]
  exact Iff.rfl

theorem sinks (h : Alike a b) (hb : Sinks b) : Sinks a := by
  refine ⟨h.1.trans hb.1, fun n m hm => hb.2 n m ?_⟩
  rwa [h.2] at hm

/-- A text tells whether a text that is alike is self-contained. -/
theorem tells (h : Alike a b) (hb : SelfContained b ∨ Sinks b) : Tells a (SelfContained b) where
  contained := h.selfContained_iff.mpr
  sinks := fun hnot => h.sinks (hb.resolve_left hnot)

end Alike

end PageLoom.Css
