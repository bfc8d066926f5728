import PageLoom.Proofs.Css.Grammar
import PageLoom.Proofs.Css.SheetText

/-!
# Stylesheet trees — scoping is exact on what was written

    A stylesheet tree is a list of style rules, grouping at-rules with a
    tree inside, other at-rules with a block, and statements.  `Written`
    says which texts write a tree; any white space may stand between the
    parts.  What scoping should make of a tree is defined on the tree
    (`Rule.under?`), with no text to read.

    A written rule ends at the first cut of the text (`itemsOf_cut`), and
    what is read of it is what the tree says, so scoping any text that
    writes a tree gives the scoped tree (`scopedItems_written`).
-/

namespace PageLoom.Css

open Text

/-! ## Trees -/

/-- A rule of a stylesheet tree. -/
inductive Rule
  /-- selectors and the text of a block -/
  | style (selectors : List (List Char)) (body : List Char)
  /-- a grouping at-rule with the rules inside -/
  | group (heading : List Char) (rules : List Rule)
  /-- another at-rule with the text of its block -/
  | block (heading body : List Char)
  /-- an at-rule without a block, with its semicolon -/
  | statement (text : List Char)

/-- The start of an at-rule: no quote, brace or semicolon. -/
structure IsHeading (heading : List Char) : Prop where
  marked : heading.head? = some '@'
  plain : Plain heading

/-- **Texts that write a tree.** -/
inductive Written : List Rule → List Char → Prop
  | nil {gap : List Char} (hgap : AllBlank gap) : Written [] gap
  | style {gap list body rest : List Char} {selectors : List (List Char)} {rules : List Rule}
      (hgap : AllBlank gap) (hlist : ListText selectors list) (hbody : Balanced body)
      (hrest : Written rules rest) :
      Written (.style selectors body :: rules) (gap ++ list ++ '{' :: body ++ '}' :: rest)
  | group {gap heading gap' inner rest : List Char} {inside rules : List Rule}
      (hgap : AllBlank gap) (hheading : IsHeading heading) (hname : NamesGroup heading)
      (hgap' : AllBlank gap') (hinner : Written inside inner) (hrest : Written rules rest) :
      Written (.group heading inside :: rules)
        (gap ++ (heading ++ gap') ++ '{' :: inner ++ '}' :: rest)
  | block {gap heading body rest : List Char} {rules : List Rule} (hgap : AllBlank gap)
      (hheading : IsHeading heading) (hname : ¬NamesGroup heading) (hbody : Balanced body)
      (hrest : Written rules rest) :
      Written (.block heading body :: rules) (gap ++ heading ++ '{' :: body ++ '}' :: rest)
  | statement {gap heading rest : List Char} {rules : List Rule} (hgap : AllBlank gap)
      (hheading : IsHeading heading) (hrest : Written rules rest) :
      Written (.statement (heading ++ [';']) :: rules) (gap ++ heading ++ ';' :: rest)

/-! ## Scoped trees -/

/-- A selector under a class: a leading `:root` becomes the class, and selectors
    with a percent sign are kept. -/
def selectorUnder (cls selector : List Char) : List Char :=
  if '%' ∈ selector then selector
  else if [':', 'r', 'o', 'o', 't'] <+: selector then '.' :: cls ++ selector.drop 5
  else '.' :: cls ++ ' ' :: selector

mutual
/-- The text of a rule under a class; none when nothing of it remains. -/
def Rule.under? (cls : List Char) : Rule → Option (List Char)
  | .style selectors body =>
      if trim body = [] then none
      else some ([',', ' '].intercalate (selectors.map fun s => selectorUnder cls (trim s))
        ++ '{' :: trim body ++ ['}'])
  | .group heading rules =>
      let inner := joinLines (rulesUnder cls rules)
      if inner = [] then none else some (trim heading ++ '{' :: '\n' :: inner ++ ['\n', '}'])
  | .block heading body => some (heading ++ '{' :: body ++ ['}'])
  | .statement text => some text

/-- The rules that remain under a class, as texts. -/
def rulesUnder (cls : List Char) : List Rule → List (List Char)
  | [] => []
  | rule :: rules =>
      match rule.under? cls with
      | some text => text :: rulesUnder cls rules
      | none => rulesUnder cls rules
end

theorem rulesUnder_cons (cls : List Char) (rule : Rule) (rules : List Rule) :
    rulesUnder cls (rule :: rules) = (rule.under? cls).toList ++ rulesUnder cls rules := by
  rw [rulesUnder]
  cases rule.under? cls with
  | none => rfl
  | some text => rfl

/-! ## Scans of written trees -/

theorem Plain.neutral {t : List Char} (h : Plain t) : Neutral t :=
  ⟨h.code_after, fun n => h.braces .code (n + 1)⟩

/-- **A written tree leaves a scan where it was**, inside any block. -/
theorem Written.neutral {rules : List Rule} {t : List Char} (h : Written rules t) : Neutral t := by
  induction h with
  | nil hgap => exact (plain_of_allBlank hgap).neutral
  | style hgap hlist hbody _ ih =>
      rw [List.append_assoc]
      exact (plain_append.mpr ⟨plain_of_allBlank hgap, hlist.scan.1⟩).neutral.append
        (hbody.neutral.block ih)
  | group hgap hheading _ hgap' _ _ ihinner ih =>
      rw [List.append_assoc]
      have hlead := plain_append.mpr ⟨hheading.plain, plain_of_allBlank hgap'⟩
      exact (plain_append.mpr ⟨plain_of_allBlank hgap, hlead⟩).neutral.append (ihinner.block ih)
  | block hgap hheading _ hbody _ ih =>
      rw [List.append_assoc]
      exact (plain_append.mpr ⟨plain_of_allBlank hgap, hheading.plain⟩).neutral.append
        (hbody.neutral.block ih)
  | statement hgap hheading _ ih =>
      exact (plain_append.mpr ⟨plain_of_allBlank hgap, hheading.plain⟩).neutral.append
        (ih.char (by decide) (by decide) (by decide))

/-- **The item of a written block** is read from what stands before its brace,
    trimmed, and the block. -/
theorem itemsOf_block {gap lead body : List Char} (hgap : AllBlank gap) (hlead : Plain lead)
    (hbody : Neutral body) (rest : List Char) :
    itemsOf (gap ++ lead ++ '{' :: body ++ '}' :: rest) =
      (readItem true (trimStart lead ++ '{' :: (body ++ ['}']))).toList ++ itemsOf rest := by
  have hplain : Plain (gap ++ lead) := plain_append.mpr ⟨plain_of_allBlank hgap, hlead⟩
  have hcode : Quoting.code.after (gap ++ lead ++ '{' :: body) = .code := by
    rw [Quoting.after_append, hplain.code_after]
    exact hbody.code
  have hlevel : levelAfter braces .code 0 (gap ++ lead ++ '{' :: body) = some 1 := by
    rw [levelAfter_append_of_some (hplain.braces .code 0), hplain.code_after]
    exact hbody.level 0
  have hstart : trimStart (gap ++ lead ++ '{' :: body) = trimStart lead ++ '{' :: body := by
    rw [List.append_assoc, trimStart_append hgap, trimStart_append_cons (by decide)]
  rw [itemsOf_cut hcode hlevel rfl, trim_concat (by decide), hstart, List.append_assoc,
    List.cons_append]

section Heading

variable {heading : List Char} (h : IsHeading heading)

include h

/-- A heading starts where its piece starts. -/
theorem IsHeading.piece (t : List Char) :
    trimStart (heading ++ t) = heading ++ t ∧ (heading ++ t).head? = some '@' := by
  have hat : (heading ++ t).head? = some '@' := by
    rw [List.head?_append, h.marked]
    rfl
  refine ⟨trimStart_of_head fun c hc => ?_, hat⟩
  rw [hat] at hc
  obtain rfl : '@' = c := Option.some.inj hc
  decide

/-- The name of an at-rule is found in its heading. -/
theorem IsHeading.isGrouping_iff {gap : List Char} (hgap : AllBlank gap) (t : List Char) :
    isGrouping (heading ++ gap ++ '{' :: t) = true ↔ NamesGroup heading := by
  have hmarked := h.marked
  cases heading with
  | nil => cases hmarked
  | cons c w =>
      obtain rfl : c = '@' := Option.some.inj hmarked
      have hstop : isGrouping ('@' :: w ++ gap ++ '{' :: t) = isGrouping ('@' :: (w ++ gap)) :=
        isGrouping_stop (by decide) '@' (w ++ gap) t
      have hgroup : isGrouping ('@' :: (w ++ gap)) = isGrouping ('@' :: w) :=
        isGrouping_append hgap '@' w
      rw [hstop, hgroup]
      exact PageLoom.Css.isGrouping_iff

end Heading

/-- The item of a written statement. -/
theorem itemsOf_statement {gap heading : List Char} (hgap : AllBlank gap)
    (hheading : IsHeading heading) (rest : List Char) :
    itemsOf (gap ++ heading ++ ';' :: rest) = .verbatim (heading ++ [';']) :: itemsOf rest := by
  have hplain : Plain (gap ++ heading) :=
    plain_append.mpr ⟨plain_of_allBlank hgap, hheading.plain⟩
  have hstart : trimStart (gap ++ heading) = heading := by
    have hpiece := (hheading.piece []).1
    rw [List.append_nil] at hpiece
    rw [trimStart_append hgap, hpiece]
  have hbrace : '{' ∉ heading ++ [';'] := by
    rw [List.mem_append, not_or]
    exact ⟨hheading.plain.no_brace, by decide⟩
  rw [itemsOf_cut hplain.code_after (hplain.braces .code 0) rfl, trim_concat (by decide), hstart,
    readItem_of_no_brace hbrace, if_pos (hheading.piece [';']).2]
  rfl

/-! ## Items of written trees -/

/-- A written list starts with a selector, once it is trimmed. -/
theorem exists_start {a s : List Char} (ha : AllBlank a) (hs : IsSelector s) (z : List Char) :
    ∃ c w, trimStart (a ++ s ++ z) = c :: w ∧ c ≠ '@' := by
  obtain ⟨a', b', ha', -, hsplit, hsolid⟩ := exists_trim s
  obtain ⟨c, w, hcw⟩ := List.exists_cons_of_ne_nil hs.solid
  have hstyle := hs.style
  rw [hcw] at hsplit hsolid hstyle
  refine ⟨c, w ++ b' ++ z, ?_, fun hc => hstyle (congrArg some hc)⟩
  have hwhole : a ++ s ++ z = a ++ a' ++ c :: (w ++ b' ++ z) := by
    rw [hsplit]
    simp only [List.append_assoc, List.cons_append]
  rw [hwhole, trimStart_append (allBlank_append.mpr ⟨ha, ha'⟩), trimStart_of_head]
  rintro d ⟨rfl⟩
  exact hsolid.1 c rfl

theorem ListText.head {selectors : List (List Char)} {list : List Char}
    (h : ListText selectors list) (t : List Char) :
    (trimStart list ++ t).head? ≠ some '@' := by
  have hstart : ∃ c w, trimStart list = c :: w ∧ c ≠ '@' := by
    cases h with
    | one ha hs hb => exact exists_start ha hs _
    | more ha hs hb ht =>
        rw [List.append_assoc]
        exact exists_start ha hs _
  obtain ⟨c, w, hcw, hc⟩ := hstart
  rw [hcw]
  exact fun hat => hc (Option.some.inj hat)

/-- Every member of a written list is a selector, and there is one. -/
theorem ListText.selectors {selectors : List (List Char)} {list : List Char}
    (h : ListText selectors list) : selectors ≠ [] ∧ ∀ s ∈ selectors, IsSelector s := by
  induction h with
  | one _ hs _ => exact ⟨List.cons_ne_nil _ _, List.forall_mem_singleton.mpr hs⟩
  | more _ hs _ _ ih => exact ⟨List.cons_ne_nil _ _, List.forall_mem_cons.mpr ⟨hs, ih.2⟩⟩

/-- Trimming the start of a list changes no clean member. -/
theorem cleanMembers_trimStart (list : List Char) :
    cleanMembers (trimStart list) = cleanMembers list := by
  obtain ⟨a, ha, hsplit, -⟩ := exists_trimStart list
  obtain ⟨x, xs, hx, hax⟩ := selectorMembers_allBlank_append ha (trimStart list)
  have htrim : trim (a ++ x) = trim x := by
    have happend := trim_append ha allBlank_nil x
    rwa [List.append_nil] at happend
  rw [← hsplit] at hax
  rw [cleanMembers, cleanMembers, hx, hax, List.map_cons, List.map_cons, htrim]

/-- A selector that is no at-rule is scoped as the tree says. -/
theorem scopeMember_eq {cls s : List Char} (h : s.head? ≠ some '@') :
    scopeMember cls s = selectorUnder cls s := by
  rcases scopeMember_cases cls s with
    ⟨hat | hpercent, hself⟩ | ⟨hnot, ⟨rest, rfl, hscoped⟩ | ⟨hroot, hscoped⟩⟩
  · exact absurd hat h
  · rw [hself, selectorUnder, if_pos hpercent]
  · rw [hscoped, selectorUnder, if_neg fun hin => hnot (.inr hin), if_pos (List.prefix_append _ _)]
    rfl
  · rw [hscoped, selectorUnder, if_neg fun hin => hnot (.inr hin), if_neg hroot]

/-- **A written style rule** gives the scoped rule. -/
theorem scoped?_style {selectors : List (List Char)} {list : List Char}
    (hlist : ListText selectors list) (name body : List Char) :
    (Item.rule (trimStart list) (trim body)).scoped? name =
      (Rule.style selectors body).under? (scopeName name) := by
  obtain ⟨hne, hselectors⟩ := hlist.selectors
  have hclean : cleanMembers (trimStart list) = selectors.map trim := by
    rw [cleanMembers_trimStart, hlist.scan.2]
  have hmembers : (selectors.map trim).map (scopeMember (scopeName name)) =
      selectors.map fun s => selectorUnder (scopeName name) (trim s) := by
    rw [List.map_map]
    exact List.map_congr_left fun s hs => scopeMember_eq (hselectors s hs).style
  have hempty : (selectors.map trim).isEmpty = false := by
    rw [List.isEmpty_eq_false_iff]
    exact fun hnil => hne (List.map_eq_nil_iff.mp hnil)
  rw [scoped?_rule, hclean, hempty, hmembers, Bool.or_false]
  show _ = if trim body = [] then none else some _
  cases trim body with
  | nil => rfl
  | cons c t => rfl

/-- **Reading a written tree and scoping it** gives the scoped tree. -/
theorem scopedItems_written {rules : List Rule} {t : List Char} (h : Written rules t)
    (name : List Char) :
    scopedItems name (itemsOf t) = rulesUnder (scopeName name) rules := by
  have hcons : ∀ {item : Item} {items : List Item} {rule : Rule} {rules : List Rule},
      item.scoped? name = rule.under? (scopeName name) →
      scopedItems name items = rulesUnder (scopeName name) rules →
      scopedItems name (item :: items) = rulesUnder (scopeName name) (rule :: rules) := by
    intro item items rule rules hitem hitems
    rw [scopedItems_cons, rulesUnder_cons, hitem, hitems]
  induction h with
  | nil hgap =>
      rw [itemsOf_allBlank hgap]
      rfl
  | @style gap list body rest selectors rules hgap hlist hbody hrest ih =>
      have hbrace : '{' ∉ trimStart list := fun hmem =>
        hlist.scan.1.no_brace ((List.dropWhile_sublist _).mem hmem)
      rw [itemsOf_block hgap hlist.scan.1 hbody.neutral, readItem_of_brace hbrace,
        if_neg (hlist.head _), withoutClose_close]
      exact hcons (scoped?_style hlist name body) ih
  | @group gap heading gap' inner rest inside rules hgap hheading hname hgap' hinner hrest
      ihinner ih =>
      -- the gap before the brace is read with the heading and trimmed off
      have hlead : Plain (heading ++ gap') :=
        plain_append.mpr ⟨hheading.plain, plain_of_allBlank hgap'⟩
      have hat : (heading ++ gap' ++ '{' :: (inner ++ ['}'])).head? = some '@' := by
        rw [List.append_assoc]
        exact (hheading.piece _).2
      have htrim : trim (heading ++ gap') = trim heading := trim_append allBlank_nil hgap' heading
      rw [itemsOf_block hgap hlead hinner.neutral, (hheading.piece gap').1,
        readItem_of_brace hlead.no_brace, if_pos hat, if_neg (by decide),
        if_pos ((hheading.isGrouping_iff hgap' _).mpr hname), withoutClose_close, htrim]
      refine hcons ?_ ih
      rw [scoped?_group, sheetText, ihinner]
      rfl
  | @block gap heading body rest rules hgap hheading hname hbody hrest ih =>
      have hgroup : ¬isGrouping (heading ++ '{' :: (body ++ ['}'])) = true := by
        rw [← List.append_nil heading, hheading.isGrouping_iff allBlank_nil]
        exact hname
      have hpiece := (hheading.piece []).1
      rw [List.append_nil] at hpiece
      rw [itemsOf_block hgap hheading.plain hbody.neutral, hpiece,
        readItem_of_brace hheading.plain.no_brace, if_pos (hheading.piece _).2,
        if_neg (by decide), if_neg hgroup]
      refine hcons ?_ ih
      show some _ = some _
      rw [List.append_assoc, List.cons_append]
  | @statement gap heading rest rules hgap hheading hrest ih =>
      rw [itemsOf_statement hgap hheading]
      exact hcons rfl ih

/-! ## Scoping -/

/-- A text that holds no start of a comment is kept by comment removal. -/
theorem stripComments_of_no_comment {t : List Char} (h : ¬['/', '*'] <:+: t) :
    stripComments t = t := by
  have key : ∀ q, stripFrom (.text q) t = t := by
    induction t with
    | nil =>
        intro q
        rfl
    | cons c t ih =>
        intro q
        have hrest : ¬['/', '*'] <:+: t := fun hin => h (List.infix_cons hin)
        rw [stripFrom, ih hrest]
        rintro cs - rfl rfl
        exact h (List.prefix_append ['/', '*'] cs).isInfix
  exact key .code

/-- **Scoping is exact on written trees**: a text that writes a tree and holds no
    comment is scoped to the text of the scoped tree. -/
theorem scope_written {rules : List Rule} {text : List Char} (h : Written rules text)
    (hcomment : ¬['/', '*'] <:+: text) (name : String) :
    scope (String.ofList text) name =
      String.ofList (joinLines (rulesUnder (scopeName (scopeName name.toList)) rules)) := by
  rw [scope, scopeChars, String.toList_ofList, stripComments_of_no_comment hcomment,
    scopedItems_written h]

/-- Two selectors, one with a comma in parentheses, and a string in the block:
    a style rule inside a grouping at-rule. -/
theorem scope_written_media :
    scope (String.ofList "@media a \x7b:root, i(b,c)\x7bd:'\x7d'\x7d\x7d".toList) "p" =
      String.ofList (joinLines (rulesUnder (scopeName (scopeName "p".toList))
        [.group "@media a".toList [.style [":root".toList, "i(b,c)".toList] "d:'\x7d'".toList]])) := by
  have hroot : IsSelector ":root".toList :=
    ⟨by decide, by decide, by decide, nested_of_simple false (by decide)⟩
  have hnested : Nested false ('i' :: ('(' :: ['b', ',', 'c'] ++ ')' :: [])) :=
    .char (by decide) (by decide) (.round (.char (by decide) (by decide)
      (.char (by decide) (by decide) (nested_of_simple true (by decide)))) (.nil false))
  have hi : IsSelector "i(b,c)".toList := ⟨by decide, by decide, by decide, hnested⟩
  have hlist : ListText [":root".toList, "i(b,c)".toList] ":root, i(b,c)".toList :=
    .more allBlank_nil hroot allBlank_nil
      (.one (a := [' ']) (s := "i(b,c)".toList) (by decide) hi allBlank_nil)
  have hbody : Balanced ('d' :: ':' :: ('\'' :: ['\x7d'] ++ '\'' :: [])) :=
    .char (by decide) (by decide) (by decide) (.char (by decide) (by decide) (by decide)
      (.string (by decide) (.char (by decide) (by decide) .nil) .nil))
  have hheading : IsHeading "@media a".toList := ⟨by decide, by decide⟩
  have hname : NamesGroup "@media a".toList :=
    ⟨[], "media".toList, " a".toList, rfl, .none, by decide, List.all_eq_true.mp (by decide), by
      rintro c ⟨rfl⟩
      decide⟩
  have hinner : Written [.style [":root".toList, "i(b,c)".toList] "d:'\x7d'".toList]
      ":root, i(b,c)\x7bd:'\x7d'\x7d".toList :=
    .style allBlank_nil hlist hbody (.nil allBlank_nil)
  have hwritten : Written
      [.group "@media a".toList [.style [":root".toList, "i(b,c)".toList] "d:'\x7d'".toList]]
      "@media a \x7b:root, i(b,c)\x7bd:'\x7d'\x7d\x7d".toList :=
    .group allBlank_nil hheading hname (by decide : AllBlank [' ']) hinner (.nil allBlank_nil)
  exact scope_written hwritten
    (fun hin => absurd (hin.subset List.mem_cons_self) (by decide)) "p"

end PageLoom.Css
