import PageLoom.Proofs.Css.Brackets
import PageLoom.Proofs.Css.NumberReading
import PageLoom.Proofs.Css.StringReading
import PageLoom.Proofs.Css.UrlReading

/-!
# Tokens, as the reader meets them

    Over a plain text the reader goes from the start of a token to the start
    of the next one, opens and closes the brackets that the token stands
    for, and stops inside a token that is malformed (`acts_scanToken`).  The
    cases are those of the scan for a token, by its first character, and each
    kind of token has a lemma of its own.

    Validation is one pass that keeps the open brackets
    (`validate_eq_ok_iff`), which is what the reader keeps.  So a plain text
    is sound exactly when the reader comes to its end
    (`validate_iff_of_plain`).
-/

namespace PageLoom.Css

open Text Token

/-! ## Comments -/

/-- A character of a comment that does not end it. -/
theorem Leads.comment_cons {stack : List Bracket} {c : Char} {t : List Char}
    (h : ¬(c = '*' ∧ t.head? = some '/')) :
    Leads ⟨.comment, stack⟩ (c :: t) ⟨.comment, stack⟩ t := by
  by_cases hc : c = '*'
  · subst hc
    refine (quiet rfl rfl stack t).trans (alike (m := .star) rfl (fun _ _ => rfl) ?_)
    rintro d s rfl
    have hd : d ≠ '/' := by
      rintro rfl
      exact h ⟨rfl, rfl⟩
    show some (if d = '/' then _ else _) = some _
    rw [if_neg hd]
  · have hnext : Mode.comment.next c = some .comment := by
      rw [Mode.next, if_neg hc]
    exact quiet hnext rfl stack t

/-- The start of a comment. -/
theorem Leads.comment_open (r : Recent) (stack : List Bracket) (t : List Char) :
    Leads ⟨.code r, stack⟩ ('/' :: '*' :: t) ⟨.comment, stack⟩ t := by
  have hslash : (Mode.code r).next '/' = some (.code .slash) := rfl
  exact (skip hslash (by decide) stack _).trans (skip rfl (by decide) stack t)

/-- The end of a comment. -/
theorem Leads.comment_close (stack : List Bracket) (t : List Char) :
    Leads ⟨.comment, stack⟩ ('*' :: '/' :: t) ⟨.code .fresh, stack⟩ t := by
  have hstar : Mode.comment.next '*' = some .star := rfl
  exact (quiet hstar rfl stack _).trans (quiet rfl rfl stack t)

/-- The rest of a comment. -/
theorem Leads.comment (stack : List Bracket) (t : List Char) :
    Leads ⟨.comment, stack⟩ t ⟨.code .fresh, stack⟩ (t.drop (Token.comment t)) := by
  induction t with
  | nil => exact nil _ _
  | cons c t ih =>
      by_cases hend : c = '*' ∧ t.head? = some '/'
      · obtain ⟨rfl, hslash⟩ := hend
        obtain ⟨s, rfl⟩ := List.head?_eq_some_iff.mp hslash
        exact comment_close stack s
      · have hlength : Token.comment (c :: t) = Token.comment t + 1 := by
          rw [Token.comment]
          rintro s rfl rfl
          exact hend ⟨rfl, rfl⟩
        rw [hlength, List.drop_succ_cons]
        exact (comment_cons hend).trans ih

/-! ## Tokens -/

namespace Leads

variable {stack : List Bracket} {t : List Char}

/-- A word ends where no name goes on. -/
theorem word_of_not_startsName (h : startsName t = false) :
    Leads ⟨.code .word, stack⟩ t ⟨.code .fresh, stack⟩ t := by
  refine alike rfl (fun _ h => h) fun c s hc => Mode.next_after_word ?_
  rw [hc] at h
  refine Bool.eq_false_iff.mpr fun hstart => ?_
  rw [startsName_of_isNameStart hstart s] at h
  cases h

/-- A name after a word. -/
theorem word_name (hplain : (Mode.code .word).isPlain t = true) :
    Leads ⟨.code .word, stack⟩ t ⟨.code .fresh, stack⟩ (t.drop (Token.name t).2) := by
  rw [name_of_plain hplain, drop_takeWhile]
  have hname := name .word stack t
  rw [Recent.word_after (List.all_eq_true.mp List.all_takeWhile)] at hname
  refine hname.trans (alike rfl (fun _ h => h) fun d s hd => ?_)
  have hstop := List.head?_dropWhile_not isNameChar t
  rw [hd] at hstop
  exact Mode.next_after_name (by decide) hstop fun h => absurd h.2 (by decide)

/-- A slash that opens no comment. -/
theorem slash (h : t.head? ≠ some '*') :
    Leads ⟨.code .slash, stack⟩ t ⟨.code .fresh, stack⟩ t := by
  refine alike rfl (fun _ h => h) ?_
  rintro c s rfl
  have hc : c ≠ '*' := by
    rintro rfl
    exact h rfl
  rw [Mode.next, Mode.next, decide_eq_false hc]
  rfl

/-- Code that goes on alike. -/
theorem alike_recent {r r' : Recent} (hr : r ≠ .slash ∧ r ≠ .url) (hr' : r' ≠ .slash ∧ r' ≠ .url)
    (h : ∀ c s, t = c :: s → r.next c = r'.next c) :
    Leads ⟨.code r, stack⟩ t ⟨.code r', stack⟩ t := by
  refine alike rfl (fun _ h => h) fun c s ht => ?_
  rw [Mode.next, Mode.next, h c s ht, decide_eq_false hr.1, decide_eq_false hr.2,
    decide_eq_false hr'.1, decide_eq_false hr'.2]

/-- A sign that opens no `<!--`. -/
theorem less (h : t.take 3 ≠ ['!', '-', '-']) :
    Leads ⟨.code .less, stack⟩ t ⟨.code .fresh, stack⟩ t := by
  by_cases hbang : t.head? = some '!'
  · obtain ⟨s, rfl⟩ := List.head?_eq_some_iff.mp hbang
    have hless : (Mode.code .less).next '!' = some (.code .bang) := rfl
    have hfresh : (Mode.code .fresh).next '!' = some (.code .fresh) := rfl
    refine cons hless hfresh (by decide) rfl ?_
    by_cases hdash : s.head? = some '-'
    · obtain ⟨s, rfl⟩ := List.head?_eq_some_iff.mp hdash
      have hmark : (Mode.code .bang).next '-' = some (.code .dash) := rfl
      have hword : (Mode.code .fresh).next '-' = some (.code .word) := rfl
      refine cons hmark hword (by decide) rfl ?_
      refine alike_recent (by decide) (by decide) ?_
      rintro c s rfl
      have hc : c ≠ '-' := by
        rintro rfl
        exact h rfl
      rw [Recent.next, Recent.next, if_neg hc, if_neg hc]
      rfl
    · refine alike_recent (by decide) (by decide) ?_
      rintro c s rfl
      have hc : c ≠ '-' := by
        rintro rfl
        exact hdash rfl
      rw [Recent.next, Recent.next, if_neg hc, if_neg hc]
      rfl
  · refine alike_recent (by decide) (by decide) ?_
    rintro c s rfl
    have hc : c ≠ '!' := by
      rintro rfl
      exact hbang rfl
    rw [Recent.next, Recent.next, if_neg hc, if_neg hc]
    rfl

end Leads

/-- A token that starts with a character without meaning. -/
theorem Acts.cons {c : Char} {t : List Char} {r : Recent} {n : Nat}
    (h : (Mode.code .fresh).next c = some (.code r)) (hc : c ∉ ['(', ')', '[', ']', '{', '}'])
    (ht : ∀ stack, Leads ⟨.code r, stack⟩ t ⟨.code .fresh, stack⟩ (t.drop n)) :
    Acts (.other, n + 1) (c :: t) := by
  refine .other fun stack => ?_
  rw [List.drop_succ_cons]
  exact (Leads.skip h hc stack t).trans (ht stack)

/-- A string with its quote. -/
theorem acts_quote {quote : Char} (hquote : isQuote quote = true) (t : List Char) :
    Acts ((Token.string quote t).1, (Token.string quote t).2 + 1) (quote :: t) := by
  have hrest := acts_string hquote t
  have hbracket : quote ∉ ['(', ')', '[', ']', '{', '}'] := by
    intro hmem
    simp only [List.mem_cons, List.not_mem_nil, or_false] at hmem
    rcases hmem with rfl | rfl | rfl | rfl | rfl | rfl <;> cases hquote
  have hstep : ∀ stack, Leads ⟨.code .fresh, stack⟩ (quote :: t)
      ⟨.string quote .plain, stack⟩ t := by
    intro stack
    have hnext : (Mode.code .fresh).next quote = some (.string quote .plain) := if_pos hquote
    exact Leads.skip hnext hbracket stack t
  constructor
  · intro stack stack' hact
    rcases hrest.kind with hkind | hkind
    · rw [hkind] at hact
      obtain rfl : stack = stack' := Option.some.inj hact
      exact (hstep stack).trans (hrest.leads hkind)
    · rw [hkind] at hact
      cases hact
  · intro stack hact
    refine (hstep stack).stops (hrest.stops fun hkind => ?_)
    rw [hkind] at hact
    cases hact

/-- A sign with the equals sign after it. -/
theorem acts_withNext {c : Char} (h : (Mode.code .fresh).next c = some (.code .fresh))
    (hc : c ∉ ['(', ')', '[', ']', '{', '}']) (t : List Char) :
    Acts ((withNext '=' t).1, (withNext '=' t).2 + 1) (c :: t) := by
  cases t with
  | nil => exact .cons h hc fun stack => Leads.refl _ _
  | cons d t =>
      refine .cons h hc fun stack => ?_
      show Leads _ _ _ ((d :: t).drop (if d = '=' then 1 else 0))
      split
      · rename_i hd
        subst hd
        exact Leads.skip rfl (by decide) stack t
      · exact Leads.refl _ _

theorem nameLike_pos {c : Char} {t : List Char} {r : Recent} (hc : isNameChar c = true)
    (hplain : (Mode.code r).isPlain (c :: t) = true) : 1 ≤ (nameLike (c :: t)).2 := by
  have hlength : 1 ≤ ((c :: t).takeWhile isNameChar).length := by
    rw [List.takeWhile_cons, hc]
    exact Nat.le_add_left 1 _
  by_cases hopen : ((c :: t).dropWhile isNameChar).head? = some '('
  · obtain ⟨rest, hrest⟩ := List.head?_eq_some_iff.mp hopen
    rw [nameLike_of_open hplain hrest]
    split <;> dsimp only <;> omega
  · rw [nameLike_of_not_open hplain hopen]
    exact hlength

theorem acts_fromName {c : Char} {t : List Char} (hc : isNameChar c = true)
    (hplain : (Mode.code .fresh).isPlain (c :: t) = true) :
    Acts ((fromName c t).1, (fromName c t).2 + 1) (c :: t) := by
  have hacts := acts_nameLike hc hplain
  have hpos := nameLike_pos hc hplain
  show Acts ((nameLike (c :: t)).1, (nameLike (c :: t)).2 - 1 + 1) (c :: t)
  rw [Nat.sub_add_cancel hpos]
  exact hacts

theorem numeric_pos {t : List Char} (h : startsNumber t = true) : 1 ≤ Token.numeric t := by
  have hlength : 1 ≤ Token.digits t + Token.fraction (t.drop (Token.digits t)) := by
    cases t with
    | nil => cases h
    | cons c t =>
        cases hdigit : c.isDigit with
        | true =>
            have hone : Token.digits (c :: t) = Token.digits t + 1 := by
              rw [Token.digits, Token.digits, List.takeWhile_cons, hdigit]
              rfl
            omega
        | false =>
            obtain ⟨rfl, hstart⟩ := startsNumber_of_not_digit hdigit h
            have hone : Token.fraction ('.' :: t) = Token.digits t + 1 := if_pos hstart
            show 1 ≤ 0 + Token.fraction ('.' :: t)
            omega
  unfold Token.numeric
  dsimp only
  split
  · omega
  · split <;> omega

section Kinds

variable {c : Char} {t : List Char}

/-- White space. -/
theorem acts_space (hc : isSpace c = true) :
    Acts (.other, (t.takeWhile isSpace).length + 1) (c :: t) := by
  refine .cons (Mode.next_of_isSpace hc .fresh) (not_bracket_of_isSpace hc) ?_
  intro stack
  rw [drop_takeWhile]
  exact Leads.dropWhile
    (fun d hd => ⟨Mode.next_of_isSpace hd .fresh, not_bracket_of_isSpace hd⟩) stack t

/-- A number without a sign. -/
theorem acts_number (hstart : startsNumber (c :: t) = true)
    (hplain : (Mode.code .fresh).isPlain (c :: t) = true) :
    Acts (.other, Token.numeric (c :: t) - 1 + 1) (c :: t) := by
  rw [Nat.sub_add_cancel (numeric_pos hstart)]
  refine .other ?_
  intro stack
  exact Leads.numeric hstart hplain

/-- A number with a plus sign, or the sign alone. -/
theorem acts_plus (hplain : (Mode.code .fresh).isPlain t = true) :
    Acts (.other, (if startsNumber t then Token.numeric t else 0) + 1) ('+' :: t) := by
  refine .cons (r := .fresh) rfl (by decide) ?_
  intro stack
  split
  case isTrue hstart => exact Leads.numeric hstart hplain
  case isFalse => exact Leads.refl _ _

/-- A number that starts with its point, or the point alone. -/
theorem acts_point (hplain : (Mode.code .fresh).isPlain ('.' :: t) = true) :
    Acts (.other, (if startsDigit t then Token.numeric ('.' :: t) - 1 else 0) + 1) ('.' :: t) := by
  split
  case isTrue hstart => exact acts_number hstart hplain
  case isFalse => exact .cons (r := .fresh) rfl (by decide) fun stack => Leads.refl _ _

/-- A hash with its name, or the mark alone. -/
theorem acts_hash (hplain : (Mode.code .word).isPlain t = true) :
    Acts (.other,
      (if startsName t || startsDigit t || t.head? == some '-' then (Token.name t).2 else 0) + 1)
      ('#' :: t) := by
  refine .cons (r := .word) rfl (by decide) ?_
  intro stack
  split
  case isTrue => exact Leads.word_name hplain
  case isFalse hname => exact Leads.word_of_not_startsName (by simp at hname; exact hname.1.1)

/-- An at-keyword, or the sign alone. -/
theorem acts_at (hplain : (Mode.code .word).isPlain t = true) :
    Acts (.other, (if startsName t then (Token.name t).2 else 0) + 1) ('@' :: t) := by
  refine .cons (r := .word) rfl (by decide) ?_
  intro stack
  split
  case isTrue => exact Leads.word_name hplain
  case isFalse hname => exact Leads.word_of_not_startsName (Bool.eq_false_iff.mpr hname)

/-- The mark `-->`. -/
theorem acts_commentEnd (h : t.take 2 = ['-', '>']) : Acts (.other, 2 + 1) ('-' :: t) := by
  obtain ⟨s, rfl⟩ : ['-', '>'] <+: t := h ▸ List.take_prefix 2 t
  refine .cons (r := .word) rfl (by decide) ?_
  intro stack
  have hdash : (Mode.code .word).next '-' = some (.code .word) := rfl
  exact (Leads.skip hdash (by decide) stack _).trans (Leads.skip rfl (by decide) stack s)

/-- A hyphen that starts neither a number nor a name. -/
theorem acts_hyphen (h : startsName ('-' :: t) = false) : Acts (.other, 0 + 1) ('-' :: t) := by
  refine .cons (r := .word) rfl (by decide) ?_
  intro stack
  refine Leads.alike rfl (fun _ h => h) ?_
  rintro d s rfl
  refine Mode.next_after_word (Bool.eq_false_iff.mpr ?_)
  intro hd
  have hname : (isNameStart d || d == '-' || (d == '\\' && !startsNewline s)) = false := h
  rw [hd] at hname
  cases hname

/-- A comment, or the slash alone. -/
theorem acts_slash :
    Acts (.other, (if t.head? == some '*' then 1 + Token.comment (t.drop 1) else 0) + 1)
      ('/' :: t) := by
  refine .cons (r := .slash) rfl (by decide) ?_
  intro stack
  split
  case isTrue hstar =>
      obtain ⟨s, rfl⟩ := List.head?_eq_some_iff.mp (beq_iff_eq.mp hstar)
      rw [Nat.add_comm]
      exact (Leads.skip rfl (by decide) stack s).trans (Leads.comment stack s)
  case isFalse hstar => exact Leads.slash (by simpa using hstar)

/-- The mark `<!--`, or the sign alone. -/
theorem acts_less :
    Acts (.other, (if t.take 3 == ['!', '-', '-'] then 3 else 0) + 1) ('<' :: t) := by
  refine .cons (r := .less) rfl (by decide) ?_
  intro stack
  split
  case isTrue hmark =>
      obtain ⟨s, rfl⟩ : ['!', '-', '-'] <+: t := beq_iff_eq.mp hmark ▸ List.take_prefix 3 t
      have hbang : (Mode.code .less).next '!' = some (.code .bang) := rfl
      have hdash : (Mode.code .bang).next '-' = some (.code .dash) := rfl
      exact ((Leads.skip hbang (by decide) stack _).trans
        (Leads.skip hdash (by decide) stack _)).trans (Leads.skip rfl (by decide) stack s)
  case isFalse hmark => exact Leads.less (by simpa using hmark)

/-- A character that has no meaning for the reader either. -/
theorem acts_meaningless (hname : isNameChar c = false)
    (hc : c ∉ ['"', '\'', '#', '@', '(', ')', '[', ']', '{', '}', '-', '/', '<']) :
    Acts (.other, 0 + 1) (c :: t) := by
  simp only [List.mem_cons, List.not_mem_nil, or_false, not_or] at hc
  have hquote : isQuote c = false := by simp [isQuote, hc]
  have hrecent : Recent.fresh.next c = .fresh := by simp [Recent.next, hname, hc]
  refine .single ?_ (by simp [hc])
  rw [Mode.next_code hquote (fun h => absurd h.2 (by decide)) fun h => absurd h.2 (by decide),
    hrecent]

end Kinds

/-- **Every token of a plain text** leaves the reader in fresh code, with the
    brackets open that it leaves open, or stops it when it is unsound. -/
theorem acts_scanToken {c : Char} {t : List Char}
    (hplain : (Mode.code .fresh).isPlain (c :: t) = true) :
    Acts ((scanToken c t).1, (scanToken c t).2 + 1) (c :: t) := by
  have hrest : ∀ {r : Recent}, (Mode.code .fresh).next c = some (.code r) →
      (Mode.code r).isPlain t = true := by
    intro r h
    rw [Mode.isPlain, h, Bool.and_eq_true] at hplain
    exact hplain.2
  unfold scanToken
  split
  case isTrue hspace => exact acts_space hspace
  case isFalse hspace =>
  split
  case isTrue hdigit => exact acts_number (startsNumber_of_isDigit hdigit t) hplain
  case isFalse hdigit =>
  split
  case isTrue hstart => exact acts_fromName (by rw [isNameChar, hstart]; rfl) hplain
  case isFalse hstart =>
  split
  · exact acts_quote rfl t
  · exact acts_quote rfl t
  · exact acts_hash (hrest rfl)
  · exact acts_at (hrest rfl)
  · exact .bracket rfl fun stack => rfl
  · exact .bracket rfl fun stack => rfl
  · exact .bracket rfl fun stack => rfl
  · exact .bracket rfl fun stack => rfl
  · exact .bracket rfl fun stack => rfl
  · exact .bracket rfl fun stack => rfl
  · exact acts_plus (hrest rfl)
  · exact acts_point hplain
  · split
    case isTrue hnumber =>
        exact .cons (r := .word) rfl (by decide) fun stack => Leads.numeric hnumber (hrest rfl)
    case isFalse =>
    split
    case isTrue hmark => exact acts_commentEnd (beq_iff_eq.mp hmark)
    case isFalse =>
    split
    case isTrue => exact acts_fromName rfl hplain
    case isFalse hname => exact acts_hyphen (Bool.eq_false_iff.mpr hname)
  · exact acts_slash
  · exact acts_less
  · exact absurd rfl (plain_of_plain_cons hplain)
  · exact acts_withNext rfl (by decide) t
  · exact acts_withNext rfl (by decide) t
  · exact acts_withNext rfl (by decide) t
  · exact acts_withNext rfl (by decide) t
  · exact acts_withNext rfl (by decide) t
  · refine acts_meaningless ?_ ?_
    · simp_all [isNameChar]
    · simp only [List.mem_cons, List.not_mem_nil, or_false]
      grind

/-! ## Validation, character by character -/

/-- **The reader follows the tokens** of a plain text. -/
theorem isSome_stackAfter_tokens {stack : List Bracket} {t : List Char}
    (hplain : (Mode.code .fresh).isPlain t = true) :
    (stackAfter stack ((tokens t).map Token.kind)).isSome =
      (Lexing.after ⟨.code .fresh, stack⟩ t).isSome := by
  induction hlen : t.length using Nat.strongRecOn generalizing t stack with
  | ind len ih =>
      subst hlen
      cases t with
      | nil =>
          rw [tokens]
          rfl
      | cons c t =>
          have hacts := acts_scanToken hplain
          have hshorter : (t.drop (scanToken c t).2).length < (c :: t).length := by
            rw [List.length_drop, List.length_cons]
            omega
          rw [tokens]
          show (((scanToken c t).1.act stack).bind fun stack =>
            stackAfter stack ((tokens (t.drop (scanToken c t).2)).map Token.kind)).isSome = _
          cases hact : (scanToken c t).1.act stack with
          | none =>
              rw [hacts.stops hact]
              rfl
          | some stack' =>
              have hleads := hacts.leads hact
              rw [Option.bind_some, hleads.sound]
              exact ih _ hshorter (hleads.plain hplain) rfl

/-- **Validation of plain texts** is reading them character by character. -/
theorem validate_iff_of_plain {css : String}
    (hplain : (Mode.code .fresh).isPlain css.toList = true) :
    validate css = .ok () ↔ (Lexing.after {} css.toList).isSome = true := by
  rw [validate_eq_ok_iff, isSome_stackAfter_tokens hplain]

end PageLoom.Css
