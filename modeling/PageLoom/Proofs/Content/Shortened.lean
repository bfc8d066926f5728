import PageLoom.Content.Filter
import PageLoom.Proofs.Html.Tags
import PageLoom.Proofs.Text.Numerals

/-!
# Shortened texts — what is left after one pass is left after two

    Three built-in filters make a text shorter: `strip_tags` leaves its plain
    text, `words` the first words of that, `truncate` its first characters.  A
    number as the argument of the last two is their count if it has at most 64
    bits, and stands for the default otherwise (`Filter.count_toString`).

    What a filter leaves, it leaves as it is (`FilterRegistry.shortened`): plain
    text holds no tag, the first words are not more than the count, and a text
    that was cut still starts with the same characters.
-/

namespace PageLoom

open Text

namespace Filter

/-- **The count that a number gives**: itself if it is positive and of at most 64
    bits, the default otherwise. -/
theorem count_toString (n default : Nat) :
    count (some (toString n)) default = if 1 ≤ n ∧ n ≤ greatestWord then n else default := by
  have hsolid : Solid (Nat.toDigits 10 n) := solid_of_digits fun c => isDigit_of_mem_toDigits
  rw [count, Option.bind_some, Nat.toString_eq_repr, Nat.repr_eq_ofList_toDigits,
    String.toList_ofList, trim_of_solid hsolid, word?_toDigits]
  by_cases hword : n ≤ greatestWord
  · rw [if_pos hword, Option.filter_some]
    by_cases hpos : 0 < n
    · rw [if_pos (decide_eq_true hpos), if_pos ⟨hpos, hword⟩, Option.getD_some]
    · rw [if_neg (fun h => hpos (of_decide_eq_true h)), if_neg (fun h => hpos h.1),
        Option.getD_none]
  · rw [if_neg hword, if_neg (fun h => hword h.2)]
    rfl

/-- **A cut text is cut already.** -/
theorem truncateTo_truncateTo (n : Nat) (cs : List Char) :
    truncateTo n (truncateTo n cs) = truncateTo n cs := by
  rw [truncateTo.eq_def n cs]
  split
  · rename_i hmore
    have htake : (cs.take n).length = n := List.length_take_of_le (Nat.le_of_lt hmore)
    rw [truncateTo, if_pos, List.take_left' htake]
    rw [List.length_append, htake]
    exact Nat.lt_add_of_pos_right (by decide)
  · rename_i hless
    exact if_neg hless

end Filter

namespace FilterRegistry

/-- What a built-in filter makes of a text. -/
def onText (name : String) (arg : Option String) (context : Context) (s : String) : Json :=
  builtIn.apply name (.string s) arg context

theorem onText_stripTags (arg : Option String) (context : Context) (s : String) :
    onText "strip_tags" arg context s = .string (String.ofList (Html.stripTags s.toList)) := by
  rfl

theorem onText_words (arg : Option String) (context : Context) (s : String) :
    onText "words" arg context s = .string (Html.firstWords (Filter.count arg 20) s) := by
  rfl

theorem onText_truncate (arg : Option String) (context : Context) (s : String) :
    onText "truncate" arg context s =
      .string (String.ofList (Filter.truncateTo (Filter.count arg 100) s.toList)) := by
  rfl

variable (s : String) (context : Context)

/-- **Shortened texts**: plain text holds no tag, and a text without tags is plain
    but for the white space at its ends; the first words are at most as many as
    the count and hold no tag; a text is cut to its first characters, as many as
    the count, with dots when there are more.  Each filter leaves what it made as
    it is.  A number of more than 64 bits is no count, and the default stands for
    it. -/
theorem shortened :
    (∀ arg, ∃ t, onText "strip_tags" arg context s = .string t ∧
      Html.TagFree t.toList ∧ (Html.TagFree s.toList → t = trimmed s) ∧
      onText "strip_tags" arg context t = .string t) ∧
    (∀ n, 1 ≤ n → ∃ t, onText "words" (some (toString n)) context s = .string t ∧
      (words t.toList).length ≤ n ∧ Html.TagFree t.toList ∧
      words t.toList = Html.keptWords (if n ≤ greatestWord then n else 20)
        (words (Html.stripTags s.toList)) ∧
      onText "words" (some (toString n)) context t = .string t) ∧
    ∀ n, 1 ≤ n → ∃ t, onText "truncate" (some (toString n)) context s = .string t ∧
      (n ≤ greatestWord → t = if s.toList.length ≤ n then s
        else String.ofList (s.toList.take n ++ ['.', '.', '.'])) ∧
      (greatestWord < n → onText "truncate" none context s = .string t) ∧
      onText "truncate" (some (toString n)) context t = .string t := by
  refine ⟨fun arg => ?_, fun n hn => ?_, fun n hn => ?_⟩
  · refine ⟨_, onText_stripTags arg context s, ?_, fun h => ?_, ?_⟩
    · rw [String.toList_ofList]
      exact Html.tagFree_stripTags _
    · rw [Html.stripTags_of_tagFree h]
      rfl
    · rw [onText_stripTags, String.toList_ofList, Html.stripTags_stripTags]
  · -- the default is less than any number that is no count
    have hcount : Filter.count (some (toString n)) 20 = if n ≤ greatestWord then n else 20 := by
      rw [Filter.count_toString]
      simp only [hn, true_and]
    have hpos : 1 ≤ Filter.count (some (toString n)) 20 := by
      rw [hcount]
      split <;> omega
    have hle : Filter.count (some (toString n)) 20 ≤ n := by
      rw [hcount]
      split
      · exact Nat.le_refl n
      · have : 20 ≤ greatestWord := by decide
        omega
    have hwords := Html.words_firstWords hpos s
    refine ⟨_, onText_words _ context s, ?_, Html.tagFree_firstWords hpos s, ?_, ?_⟩
    · rw [hwords]
      exact Nat.le_trans (Html.length_keptWords _ _) hle
    · rw [hwords, hcount]
    · rw [onText_words, Html.firstWords_firstWords hpos]
  · have hcount : Filter.count (some (toString n)) 100 = if n ≤ greatestWord then n else 100 := by
      rw [Filter.count_toString]
      simp only [hn, true_and]
    refine ⟨_, onText_truncate _ context s, fun hword => ?_, fun hword => ?_, ?_⟩
    · rw [hcount, if_pos hword, Filter.truncateTo]
      split
      · rename_i hmore
        rw [if_neg (Nat.not_le.mpr hmore)]
      · rename_i hless
        rw [if_pos (Nat.not_lt.mp hless), String.ofList_toList]
    · rw [hcount, if_neg (Nat.not_le.mpr hword)]
      rfl
    · rw [onText_truncate, String.toList_ofList, Filter.truncateTo_truncateTo]

/-- A tag that forms where a script is removed goes too, and what never closes
    stays; two words are left as they are, and so are the first two characters. -/
theorem shortened_formed :
    let context : Context := { request := { now := default } }
    let s := " <b>one <scr<script>x</script>ipt> two <i three "
    1 ≤ 2 ∧ 2 ≤ greatestWord ∧
      Html.TagFree "one  two <i three".toList ∧
      onText "strip_tags" none context s = .string "one  two <i three" ∧
      onText "words" (some "2") context s = .string "one two&hellip;" ∧
      onText "words" (some "2") context "one two&hellip;" = .string "one two&hellip;" ∧
      onText "truncate" (some "2") context s = .string " <..." ∧
      onText "truncate" (some "2") context " <..." = .string " <..." := by
  intro context s
  obtain ⟨hplain, hwords, hcut⟩ := shortened s context
  have htwo : toString 2 = "2" := rfl
  have hword : 2 ≤ greatestWord := by decide
  have htext : Html.stripTags s.toList = "one  two <i three".toList := by decide +kernel
  have hfirst : Html.firstWords 2 s = "one two&hellip;" := by decide +kernel
  obtain ⟨t, ht, hfree, -, -⟩ := hplain none
  obtain ⟨u, hu, -, -, -, hagain⟩ := hwords 2 (by decide)
  obtain ⟨v, hv, hvalue, -, hcutAgain⟩ := hcut 2 (by decide)
  have hplainText : onText "strip_tags" none context s = .string "one  two <i three" := by
    rw [onText_stripTags, htext, String.ofList_toList]
  have hfirstWords : onText "words" (some (toString 2)) context s = .string "one two&hellip;" := by
    rw [onText_words, Filter.count_toString, if_pos ⟨by decide, hword⟩, hfirst]
  obtain rfl := Json.string.inj (ht.symm.trans hplainText)
  obtain rfl := Json.string.inj (hu.symm.trans hfirstWords)
  obtain rfl : v = " <..." := (hvalue hword).trans (by decide +kernel)
  rw [htwo] at hu hagain hv hcutAgain
  exact ⟨by decide, hword, hfree, hplainText, hu, hagain, hv, hcutAgain⟩

/-- **A number of more than 64 bits cuts nothing off at its place**: a text of 101
    characters is cut to a hundred. -/
theorem not_truncate_beyond_words :
    let context : Context := { request := { now := default } }
    let s := String.ofList (List.replicate 101 'x')
    let n := 18446744073709551616
    1 ≤ n ∧ s.toList.length ≤ n ∧
      onText "truncate" (some (toString n)) context s =
        .string (String.ofList (List.replicate 100 'x' ++ ['.', '.', '.'])) ∧
      onText "truncate" (some (toString n)) context s ≠ .string s := by
  intro context s n
  have hcount : Filter.count (some (toString n)) 100 = 100 := by
    rw [Filter.count_toString]
    exact if_neg fun h => absurd h.2 (by decide)
  have hcut : onText "truncate" (some (toString n)) context s =
      .string (String.ofList (List.replicate 100 'x' ++ ['.', '.', '.'])) := by
    rw [onText_truncate, hcount, String.toList_ofList]
    rfl
  refine ⟨by decide, ?_, hcut, fun h => ?_⟩
  · rw [String.toList_ofList, List.length_replicate]
    decide
  · rw [hcut] at h
    have htext := congrArg List.length (String.ofList_inj.mp (Json.string.inj h))
    simp at htext

end FilterRegistry

end PageLoom
