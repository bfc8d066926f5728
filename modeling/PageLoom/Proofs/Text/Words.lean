import PageLoom.Proofs.Text.Trim

/-!
# Words — splitting at white space and joining again

    The words of a text are not empty and hold no white space
    (`isWord_of_mem_words`), and one after the other they are the text without
    its white space (`flatten_words`).  Words that are joined by spaces come
    apart again (`words_joinWords`), so a text of words is told by its words.
-/

namespace PageLoom.Text

/-- A text that is not empty and holds no white space. -/
def IsWord (w : List Char) : Prop :=
  w ≠ [] ∧ ∀ c ∈ w, isBlank c = false

/-- Words with a space between each two. -/
def joinWords (ws : List (List Char)) : List Char :=
  [' '].intercalate ws

@[simp] theorem joinWords_nil : joinWords [] = [] := rfl

@[simp] theorem joinWords_singleton (w : List Char) : joinWords [w] = w :=
  List.intercalate_singleton

theorem joinWords_cons_cons (w v : List Char) (ws : List (List Char)) :
    joinWords (w :: v :: ws) = w ++ ' ' :: joinWords (v :: ws) := by
  rw [joinWords, List.intercalate_cons_cons, List.append_assoc]
  rfl

/-! ## Splitting -/

/-- A word that is being read goes on. -/
theorem wordsFrom_solid {c : Char} (hc : isBlank c = false) (word cs : List Char) :
    wordsFrom word (c :: cs) = wordsFrom (c :: word) cs :=
  if_neg (by rw [hc]; exact Bool.false_ne_true)

/-- White space ends the word that is being read, if there is one. -/
theorem wordsFrom_blank {c : Char} (hc : isBlank c = true) (word cs : List Char) :
    wordsFrom word (c :: cs) = wordsFrom word [] ++ words cs := by
  rw [wordsFrom.eq_def word (c :: cs), wordsFrom]
  cases word with
  | nil => exact if_pos hc
  | cons d word => exact if_pos hc

theorem wordsFrom_append {w : List Char} (hw : ∀ c ∈ w, isBlank c = false) (word cs : List Char) :
    wordsFrom word (w ++ cs) = wordsFrom (w.reverse ++ word) cs := by
  induction w generalizing word with
  | nil => rfl
  | cons c w ih =>
      obtain ⟨hc, hw⟩ := List.forall_mem_cons.mp hw
      rw [List.cons_append, wordsFrom_solid hc, ih hw, List.reverse_cons, List.append_assoc]
      rfl

/-- What has been read is a word, or nothing. -/
theorem wordsFrom_nil {word : List Char} (h : word ≠ []) : wordsFrom word [] = [word.reverse] := by
  rw [wordsFrom, List.isEmpty_eq_false_iff.mpr h]
  rfl

theorem isWord_of_mem_wordsFrom_nil {word : List Char} (hword : ∀ c ∈ word, isBlank c = false) :
    ∀ w ∈ wordsFrom word [], IsWord w := by
  by_cases hne : word = []
  · rw [hne]
    exact List.forall_mem_nil _
  · rw [wordsFrom_nil hne]
    refine List.forall_mem_singleton.mpr ⟨fun h => hne (List.reverse_eq_nil_iff.mp h), ?_⟩
    exact fun c hc => hword c (List.mem_reverse.mp hc)

theorem isWord_of_mem_wordsFrom {word : List Char} (hword : ∀ c ∈ word, isBlank c = false)
    (cs : List Char) : ∀ w ∈ wordsFrom word cs, IsWord w := by
  induction cs generalizing word with
  | nil => exact isWord_of_mem_wordsFrom_nil hword
  | cons c cs ih =>
      cases hc : isBlank c with
      | true =>
          rw [wordsFrom_blank hc]
          exact List.forall_mem_append.mpr
            ⟨isWord_of_mem_wordsFrom_nil hword, ih (List.forall_mem_nil _)⟩
      | false =>
          rw [wordsFrom_solid hc]
          exact ih (List.forall_mem_cons.mpr ⟨hc, hword⟩)

/-- **The words of a text** are words. -/
theorem isWord_of_mem_words {cs w : List Char} (h : w ∈ words cs) : IsWord w :=
  isWord_of_mem_wordsFrom (List.forall_mem_nil _) cs w h

theorem flatten_wordsFrom (word cs : List Char) :
    (wordsFrom word cs).flatten = word.reverse ++ cs.filter (!isBlank ·) := by
  have hread : ∀ word : List Char, (wordsFrom word []).flatten = word.reverse := by
    intro word
    cases word with
    | nil => rfl
    | cons c word => rw [wordsFrom_nil (List.cons_ne_nil _ _), List.flatten_singleton]
  induction cs generalizing word with
  | nil => rw [hread, List.filter_nil, List.append_nil]
  | cons c cs ih =>
      cases hc : isBlank c with
      | true =>
          rw [wordsFrom_blank hc, List.flatten_append, hread, words, ih, List.filter_cons, hc]
          rfl
      | false =>
          rw [wordsFrom_solid hc, ih, List.reverse_cons, List.append_assoc, List.filter_cons, hc]
          rfl

/-- **The words of a text, one after the other**, are the text without its white
    space. -/
theorem flatten_words (cs : List Char) : (words cs).flatten = cs.filter (!isBlank ·) :=
  flatten_wordsFrom [] cs

/-! ## Blank ends -/

theorem words_append_left {a : List Char} (ha : AllBlank a) (cs : List Char) :
    words (a ++ cs) = words cs := by
  induction a with
  | nil => rfl
  | cons c a ih =>
      obtain ⟨hc, ha⟩ := allBlank_cons.mp ha
      rw [List.cons_append, words, wordsFrom_blank hc, ih ha]
      rfl

theorem wordsFrom_append_of_allBlank {b : List Char} (hb : AllBlank b) (word cs : List Char) :
    wordsFrom word (cs ++ b) = wordsFrom word cs := by
  induction cs generalizing word with
  | nil =>
      cases b with
      | nil => rfl
      | cons c b =>
          obtain ⟨hc, hb⟩ := allBlank_cons.mp hb
          have hnone : words b = [] := by
            rw [← List.append_nil b, words_append_left hb]
            rfl
          rw [List.nil_append, wordsFrom_blank hc, hnone, List.append_nil]
  | cons c cs ih =>
      rw [List.cons_append]
      cases hc : isBlank c with
      | true => rw [wordsFrom_blank hc, wordsFrom_blank hc, words, ih, words]
      | false => rw [wordsFrom_solid hc, wordsFrom_solid hc, ih]

/-- **Trimming does not touch the words.** -/
theorem words_trim (cs : List Char) : words (trim cs) = words cs := by
  obtain ⟨a, b, ha, hb, hcs, -⟩ := exists_trim cs
  calc words (trim cs)
      = words (trim cs ++ b) := (wordsFrom_append_of_allBlank hb [] _).symm
    _ = words (a ++ (trim cs ++ b)) := (words_append_left ha _).symm
    _ = words cs := by rw [← List.append_assoc, ← hcs]

/-! ## Joining -/

/-- **Words that are joined** come apart again. -/
theorem words_joinWords {ws : List (List Char)} (h : ∀ w ∈ ws, IsWord w) :
    words (joinWords ws) = ws := by
  induction ws with
  | nil => rfl
  | cons w ws ih =>
      obtain ⟨⟨hne, hw⟩, hws⟩ := List.forall_mem_cons.mp h
      have hread : wordsFrom (w.reverse ++ []) [] = [w] := by
        rw [List.append_nil, wordsFrom_nil (fun h => hne (List.reverse_eq_nil_iff.mp h)),
          List.reverse_reverse]
      cases ws with
      | nil =>
          rw [joinWords_singleton, words, ← List.append_nil w, wordsFrom_append hw, hread,
            List.append_nil]
      | cons v ws =>
          rw [joinWords_cons_cons, words, wordsFrom_append hw, wordsFrom_blank (by decide), hread,
            ih hws]
          rfl

/-- The solid characters of joined words are those of the words. -/
theorem filter_joinWords {ws : List (List Char)} (h : ∀ w ∈ ws, IsWord w) :
    (joinWords ws).filter (!isBlank ·) = ws.flatten := by
  rw [← flatten_words, words_joinWords h]

end PageLoom.Text
