import Mathlib.Data.Prod.Lex
import PageLoom.Proofs.Site.Store
import PageLoom.Site.Resolver

/-!
# Resolution — the least template that can serve

    Among a list of templates resolution takes one at a time: a template in
    front that can serve is chosen unless the rest chooses one of lower
    priority (`resolve_cons_of_serves`).  So it chooses the first by priority and
    position (`resolve_eq_some_iff`).  A store hands its templates over in
    order of priority and identifier, so there the choice is the least by
    these two (`Store.resolve_eq_some_iff`), whatever the order in which the
    templates came in, and templates that cannot serve or would come later
    make no difference (`Store.resolve_least`).
-/

namespace PageLoom

namespace Template

variable {templateType : String} {facts : Condition.Facts} {t u : Template} {ts : List Template}

/-- **A template that can serve**: active, of the type, its conditions met. -/
def Serves (templateType : String) (facts : Condition.Facts) (t : Template) : Prop :=
  t.status.isActive = true ∧ t.templateType = templateType ∧ t.conditions.holds facts = true

instance : Decidable (Serves templateType facts t) :=
  inferInstanceAs (Decidable (_ ∧ _ ∧ _))

/-- **The first by priority and position** of those in a list that can serve. -/
def IsFirst (templateType : String) (facts : Condition.Facts) (ts : List Template)
    (t : Template) : Prop :=
  ∃ i : Nat, ts[i]? = some t ∧ t.Serves templateType facts ∧
    ∀ (j : Nat) (u : Template), ts[j]? = some u → u.Serves templateType facts →
      toLex (t.priority, i) ≤ toLex (u.priority, j)

/-- Of a template in front and the choice among those behind it, the one with
    the lower priority, the one in front on a tie. -/
def prefer (t : Template) : Option Template → Template
  | none => t
  | some u => if t.priority ≤ u.priority then t else u

/-! ## One template at a time -/

/-- Sorting by priority puts a template in front before its equals. -/
theorem exists_mergeSort_cons (t : Template) (ts : List Template) :
    ∃ before after,
      (t :: ts).mergeSort (fun a b => a.priority ≤ b.priority) = before ++ t :: after ∧
      ts.mergeSort (fun a b => a.priority ≤ b.priority) = before ++ after ∧
      (∀ u ∈ before, u.priority < t.priority) ∧ ∀ u ∈ after, t.priority ≤ u.priority := by
  have trans : ∀ a b c : Template, decide (a.priority ≤ b.priority) = true →
      decide (b.priority ≤ c.priority) = true → decide (a.priority ≤ c.priority) = true := by
    intro a b c hab hbc
    exact decide_eq_true ((of_decide_eq_true hab).trans (of_decide_eq_true hbc))
  have total : ∀ a b : Template,
      (decide (a.priority ≤ b.priority) || decide (b.priority ≤ a.priority)) = true := by
    intro a b
    simpa using le_total a.priority b.priority
  obtain ⟨before, after, hcons, hrest, hbefore⟩ := List.mergeSort_cons trans total t ts
  refine ⟨before, after, hcons, hrest, ?_, ?_⟩
  · intro u hu
    simpa using hbefore u hu
  · intro u hu
    have ascending := List.pairwise_mergeSort trans total (t :: ts)
    rw [hcons, List.pairwise_append, List.pairwise_cons] at ascending
    exact of_decide_eq_true (ascending.2.1.1 u hu)

theorem resolve_nil : resolve templateType facts [] = none := by
  simp [resolve]

theorem resolve_cons_of_not_serves (h : ¬ t.Serves templateType facts) :
    resolve templateType facts (t :: ts) = resolve templateType facts ts := by
  -- it is left out of the candidates, or it is one and its conditions fail
  simp only [resolve, List.filter_cons]
  split
  case isFalse => rfl
  case isTrue hactive =>
      have hfails : t.conditions.holds facts = false := by
        simp only [Bool.and_eq_true, beq_iff_eq] at hactive
        simpa [Serves, hactive] using h
      obtain ⟨before, after, hcons, hrest, -, -⟩ := exists_mergeSort_cons t
        (ts.filter fun t => t.status.isActive && t.templateType == templateType)
      rw [hcons, hrest, List.find?_append, List.find?_append, List.find?_cons, hfails]

/-- A template in front that can serve is weighed against the choice among the
    rest. -/
theorem resolve_cons_of_serves (h : t.Serves templateType facts) :
    resolve templateType facts (t :: ts) = some (t.prefer (resolve templateType facts ts)) := by
  obtain ⟨hactive, htype, hholds⟩ := h
  obtain ⟨before, after, hcons, hrest, hbefore, hafter⟩ := exists_mergeSort_cons t
    (ts.filter fun t => t.status.isActive && t.templateType == templateType)
  simp only [resolve, List.filter_cons, hactive, htype, beq_self_eq_true, Bool.and_self, if_true]
  rw [hcons, hrest, List.find?_append, List.find?_append, List.find?_cons, hholds]
  -- what is found before it has a lower priority, what is found after it has not
  cases hfound : before.find? (·.conditions.holds facts) with
  | some u =>
      have hlt : ¬ t.priority ≤ u.priority := not_le.mpr (hbefore u (List.mem_of_find?_eq_some hfound))
      simp [prefer, hlt]
  | none =>
      cases hlater : after.find? (·.conditions.holds facts) with
      | none => simp [prefer]
      | some u => simp [prefer, hafter u (List.mem_of_find?_eq_some hlater)]

/-! ## The first by priority and position -/

theorem IsFirst.serves (h : IsFirst templateType facts ts t) : t.Serves templateType facts := by
  obtain ⟨_, _, hserves, _⟩ := h
  exact hserves

theorem IsFirst.mem (h : IsFirst templateType facts ts t) : t ∈ ts := by
  obtain ⟨i, hi, -, -⟩ := h
  exact List.mem_of_getElem? hi

theorem IsFirst.priority_le (h : IsFirst templateType facts ts t) (hu : u ∈ ts)
    (hserves : u.Serves templateType facts) : t.priority ≤ u.priority := by
  obtain ⟨i, -, -, hleast⟩ := h
  obtain ⟨j, hj⟩ := List.getElem?_of_mem hu
  rcases Prod.Lex.toLex_le_toLex.mp (hleast j u hj hserves) with hlt | ⟨heq, -⟩
  · exact le_of_lt hlt
  · exact le_of_eq heq

theorem IsFirst.unique (ht : IsFirst templateType facts ts t)
    (hu : IsFirst templateType facts ts u) : t = u := by
  obtain ⟨i, hi, hserves, hleast⟩ := ht
  obtain ⟨j, hj, hserves', hleast'⟩ := hu
  have heq := le_antisymm (hleast j u hj hserves') (hleast' i t hi hserves)
  have hpos : i = j := congrArg Prod.snd (toLex.injective heq)
  rw [hpos, hj] at hi
  exact (Option.some.inj hi).symm

/-- A template in front that can serve is the first unless one behind it has a
    lower priority. -/
theorem isFirst_cons_self (h : t.Serves templateType facts)
    (hleast : ∀ u ∈ ts, u.Serves templateType facts → t.priority ≤ u.priority) :
    IsFirst templateType facts (t :: ts) t := by
  refine ⟨0, rfl, h, ?_⟩
  intro j u hj hserves
  rw [Prod.Lex.toLex_le_toLex]
  cases j with
  | zero =>
      obtain rfl : t = u := Option.some.inj hj
      exact .inr ⟨rfl, le_rfl⟩
  | succ j =>
      rcases (hleast u (List.mem_of_getElem? hj) hserves).lt_or_eq with hlt | heq
      · exact .inl hlt
      · exact .inr ⟨heq, Nat.zero_le _⟩

/-- The first of the rest stays first behind a template that cannot serve or has
    a higher priority. -/
theorem IsFirst.cons (h : IsFirst templateType facts ts u)
    (hhead : t.Serves templateType facts → u.priority < t.priority) :
    IsFirst templateType facts (t :: ts) u := by
  obtain ⟨i, hi, hserves, hleast⟩ := h
  refine ⟨i + 1, hi, hserves, ?_⟩
  intro j v hj hserves'
  rw [Prod.Lex.toLex_le_toLex]
  cases j with
  | zero =>
      obtain rfl : t = v := Option.some.inj hj
      exact .inl (hhead hserves')
  | succ j =>
      rcases Prod.Lex.toLex_le_toLex.mp (hleast j v hj hserves') with hlt | ⟨heq, hle⟩
      · exact .inl hlt
      · exact .inr ⟨heq, Nat.succ_le_succ hle⟩

/-- **Nothing is chosen** exactly when no template can serve. -/
theorem resolve_eq_none_iff :
    resolve templateType facts ts = none ↔ ∀ t ∈ ts, ¬ t.Serves templateType facts := by
  induction ts with
  | nil => simp [resolve_nil]
  | cons t ts ih =>
      rw [List.forall_mem_cons]
      by_cases h : t.Serves templateType facts
      · simp [resolve_cons_of_serves h, h]
      · simp [resolve_cons_of_not_serves h, h, ih]

theorem isFirst_of_resolve (h : resolve templateType facts ts = some t) :
    IsFirst templateType facts ts t := by
  induction ts generalizing t with
  | nil => simp [resolve_nil] at h
  | cons head ts ih =>
      by_cases hserves : head.Serves templateType facts
      · rw [resolve_cons_of_serves hserves, Option.some.injEq] at h
        subst h
        cases hrest : resolve templateType facts ts with
        | none =>
            refine isFirst_cons_self hserves ?_
            intro u hu hserves'
            exact absurd hserves' (resolve_eq_none_iff.mp hrest u hu)
        | some u =>
            have hfirst := ih hrest
            rw [prefer]
            split
            case isTrue hle =>
                refine isFirst_cons_self hserves ?_
                intro v hv hserves'
                exact hle.trans (hfirst.priority_le hv hserves')
            case isFalse hgt =>
                refine hfirst.cons ?_
                intro _
                exact not_le.mp hgt
      · rw [resolve_cons_of_not_serves hserves] at h
        refine (ih h).cons ?_
        intro hserves'
        exact absurd hserves' hserves

/-- **Resolution takes the first** by priority and position, and only that. -/
theorem resolve_eq_some_iff :
    resolve templateType facts ts = some t ↔ IsFirst templateType facts ts t := by
  constructor
  · exact isFirst_of_resolve
  · intro h
    cases hres : resolve templateType facts ts with
    | none => exact absurd h.serves (resolve_eq_none_iff.mp hres t h.mem)
    | some u => rw [(isFirst_of_resolve hres).unique h]

/-- What templates are compared by in a store: priority, then identifier. -/
def rank (t : Template) : Int ×ₗ Nat :=
  toLex (t.priority, t.id)

end Template

namespace Store

variable {store : Store} {classifier : Classifier} {request : Request} {t u : Template}

/-- **A template of the store that can serve a request**: under the type that
    the request is classified as. -/
def Offers (store : Store) (classifier : Classifier) (request : Request) (t : Template) : Prop :=
  t ∈ Assoc.values store.templates ∧
    ∃ templateType, classifier request = some templateType ∧ t.Serves templateType request.facts

/-- **A template that makes no difference** to what a request gets: inactive, of
    another type, with conditions that fail, or after the one that is chosen. -/
def Idle (store : Store) (classifier : Classifier) (request : Request) (t : Template) : Prop :=
  t.status.isActive = false ∨ classifier request ≠ some t.templateType ∨
    t.conditions.holds request.facts = false ∨
    ∃ chosen, store.resolve classifier request = some chosen ∧ chosen.rank < t.rank

/-! ## The order of a store -/

theorem mem_templatesOfType {templateType : String} :
    t ∈ store.templatesOfType templateType ↔
      t ∈ Assoc.values store.templates ∧ t.templateType = templateType ∧
        t.status.isActive = true := by
  simp [templatesOfType, List.mem_mergeSort]

theorem comesFirst_iff : comesFirst t u = true ↔ t.rank ≤ u.rank := by
  simp [comesFirst, Template.rank, Prod.Lex.toLex_le_toLex]

/-- The templates of a type stand in the order of their ranks. -/
theorem pairwise_templatesOfType (store : Store) (templateType : String) :
    (store.templatesOfType templateType).Pairwise fun a b => a.rank ≤ b.rank := by
  have trans : ∀ a b c, comesFirst a b = true → comesFirst b c = true →
      comesFirst a c = true := by
    intro a b c hab hbc
    exact comesFirst_iff.mpr ((comesFirst_iff.mp hab).trans (comesFirst_iff.mp hbc))
  have total : ∀ a b, (comesFirst a b || comesFirst b a) = true := by
    intro a b
    rw [Bool.or_eq_true, comesFirst_iff, comesFirst_iff]
    exact le_total a.rank b.rank
  have ascending := List.pairwise_mergeSort trans total
    ((Assoc.values store.templates).filter fun t =>
      t.templateType == templateType && t.status.isActive)
  exact ascending.imp comesFirst_iff.mp

/-- In the templates of a type, the first by priority and position is the least
    by priority and identifier. -/
theorem rank_le_of_isFirst {templateType : String} {facts : Condition.Facts}
    (h : Template.IsFirst templateType facts (store.templatesOfType templateType) t)
    (hu : u ∈ store.templatesOfType templateType) (hserves : u.Serves templateType facts) :
    t.rank ≤ u.rank := by
  obtain ⟨i, hi, -, hleast⟩ := h
  obtain ⟨j, hj⟩ := List.getElem?_of_mem hu
  rcases Prod.Lex.toLex_le_toLex.mp (hleast j u hj hserves) with hlt | ⟨heq, hle⟩
  · exact Prod.Lex.toLex_le_toLex.mpr (.inl hlt)
  · -- of equal priorities the earlier place has the lower identifier
    obtain ⟨hilt, rfl⟩ := List.getElem?_eq_some_iff.mp hi
    obtain ⟨hjlt, rfl⟩ := List.getElem?_eq_some_iff.mp hj
    rcases Nat.lt_or_eq_of_le hle with hlt | rfl
    · exact List.pairwise_iff_getElem.mp (store.pairwise_templatesOfType templateType) i j hilt
        hjlt hlt
    · exact le_rfl

/-- Of the templates of its type a request is offered those that can serve. -/
theorem offers_iff {templateType : String} (htype : classifier request = some templateType) :
    store.Offers classifier request t ↔
      t ∈ store.templatesOfType templateType ∧ t.Serves templateType request.facts := by
  rw [mem_templatesOfType]
  constructor
  · rintro ⟨hmem, _, hcls, hserves⟩
    rw [htype, Option.some.injEq] at hcls
    subst hcls
    exact ⟨⟨hmem, hserves.2.1, hserves.1⟩, hserves⟩
  · rintro ⟨⟨hmem, -⟩, hserves⟩
    exact ⟨hmem, templateType, htype, hserves⟩

/-- **Nothing is chosen** exactly when no template of the store can serve. -/
theorem resolve_eq_none_iff :
    store.resolve classifier request = none ↔ ∀ t, ¬ store.Offers classifier request t := by
  cases htype : classifier request with
  | none => simp [resolve, Offers, htype]
  | some templateType =>
      rw [resolve, htype, Option.bind_some, Template.resolve_eq_none_iff]
      simp only [offers_iff htype, not_and]

/-- What a store chooses can serve, and is the least by priority and identifier
    among what can. -/
theorem least_of_resolve (h : store.resolve classifier request = some t) :
    store.Offers classifier request t ∧
      ∀ u, store.Offers classifier request u → t.rank ≤ u.rank := by
  obtain ⟨templateType, htype, hres⟩ := Option.bind_eq_some_iff.mp h
  have hfirst := Template.resolve_eq_some_iff.mp hres
  refine ⟨(offers_iff htype).mpr ⟨hfirst.mem, hfirst.serves⟩, ?_⟩
  intro u hu
  obtain ⟨hmem, hserves⟩ := (offers_iff htype).mp hu
  exact rank_le_of_isFirst hfirst hmem hserves

/-- **A store chooses the least** by priority and identifier, and only that. -/
theorem Keyed.resolve_eq_some_iff (keyed : store.Keyed) :
    store.resolve classifier request = some t ↔
      store.Offers classifier request t ∧
        ∀ u, store.Offers classifier request u → t.rank ≤ u.rank := by
  constructor
  · exact least_of_resolve
  · rintro ⟨hoffers, hleast⟩
    cases hres : store.resolve classifier request with
    | none => exact absurd hoffers (resolve_eq_none_iff.mp hres t)
    | some u =>
        obtain ⟨hoffers', hleast'⟩ := least_of_resolve hres
        have hrank : u.rank = t.rank := le_antisymm (hleast' t hoffers) (hleast u hoffers')
        have hid : u.id = t.id := congrArg Prod.snd (toLex.injective hrank)
        rw [keyed.eq_of_id hoffers'.1 hoffers.1 hid]

/-! ## Templates that make no difference -/

/-- What is chosen among more templates is chosen among fewer that include it. -/
theorem Keyed.resolve_of_subset {smaller larger : Store} (keyed : smaller.Keyed)
    (hsub : ∀ u, smaller.Offers classifier request u → larger.Offers classifier request u)
    (h : larger.resolve classifier request = some t) (ht : smaller.Offers classifier request t) :
    smaller.resolve classifier request = some t := by
  refine keyed.resolve_eq_some_iff.mpr ⟨ht, ?_⟩
  intro u hu
  exact (least_of_resolve h).2 u (hsub u hu)

theorem Idle.of_serves {templateType : String} (idle : store.Idle classifier request t)
    (htype : classifier request = some templateType)
    (hserves : t.Serves templateType request.facts) :
    ∃ chosen, store.resolve classifier request = some chosen ∧ chosen.rank < t.rank := by
  obtain ⟨hactive, rfl, hholds⟩ := hserves
  rcases idle with h | h | h | h
  · exact absurd hactive (by simp [h])
  · exact absurd htype h
  · exact absurd hholds (by simp [h])
  · exact h

/-- **An insertion that makes no difference.** -/
theorem Keyed.resolve_insertTemplate (keyed : store.Keyed)
    (idle : store.Idle classifier request t)
    (unused : Assoc.get? t.id store.templates = none) :
    (store.insertTemplate t).resolve classifier request = store.resolve classifier request := by
  -- what is offered anew comes after the template that is chosen
  have hoffers : ∀ u, (store.insertTemplate t).Offers classifier request u →
      store.Offers classifier request u ∨
        ∃ chosen, store.resolve classifier request = some chosen ∧ chosen.rank < u.rank := by
    rintro u ⟨hmem, templateType, htype, hserves⟩
    rcases (keyed.mem_values_insertTemplate unused).mp hmem with rfl | hmem
    · exact .inr (idle.of_serves htype hserves)
    · exact .inl ⟨hmem, templateType, htype, hserves⟩
  cases hres : store.resolve classifier request with
  | none =>
      refine resolve_eq_none_iff.mpr ?_
      intro u hu
      rcases hoffers u hu with hu | ⟨chosen, hchosen, -⟩
      · exact resolve_eq_none_iff.mp hres u hu
      · exact absurd hchosen (by simp [hres])
  | some chosen =>
      obtain ⟨⟨hmem, hserves⟩, hleast⟩ := least_of_resolve hres
      refine (keyed.insertTemplate t).resolve_eq_some_iff.mpr
        ⟨⟨(keyed.mem_values_insertTemplate unused).mpr (.inr hmem), hserves⟩, ?_⟩
      intro u hu
      rcases hoffers u hu with hu | ⟨chosen', hchosen, hlt⟩
      · exact hleast u hu
      · obtain rfl : chosen = chosen' := Option.some.inj (hres.symm.trans hchosen)
        exact le_of_lt hlt

/-- **A removal that makes no difference.** -/
theorem Keyed.resolve_withoutTemplate (keyed : store.Keyed)
    (idle : store.Idle classifier request t) (ht : t ∈ Assoc.values store.templates) :
    (store.withoutTemplate t.id).resolve classifier request =
      store.resolve classifier request := by
  have hsub : ∀ u, (store.withoutTemplate t.id).Offers classifier request u →
      store.Offers classifier request u := by
    rintro u ⟨hmem, hserves⟩
    exact ⟨(keyed.mem_values_withoutTemplate.mp hmem).1, hserves⟩
  cases hres : store.resolve classifier request with
  | none =>
      refine resolve_eq_none_iff.mpr ?_
      intro u hu
      exact resolve_eq_none_iff.mp hres u (hsub u hu)
  | some chosen =>
      obtain ⟨⟨hmem, templateType, htype, hserves⟩, -⟩ := least_of_resolve hres
      -- what is taken away is not the template that is chosen
      have hne : chosen.id ≠ t.id := by
        intro hid
        obtain rfl := keyed.eq_of_id hmem ht hid
        obtain ⟨chosen', hchosen, hlt⟩ := idle.of_serves htype hserves
        obtain rfl : chosen = chosen' := Option.some.inj (hres.symm.trans hchosen)
        exact lt_irrefl _ hlt
      exact (keyed.withoutTemplate t.id).resolve_of_subset hsub hres
        ⟨keyed.mem_values_withoutTemplate.mpr ⟨hmem, hne⟩, templateType, htype, hserves⟩

/-- **Resolution is the choice of the least.**  A list gives its first by
    priority and position of what can serve, a store the least by priority and
    identifier, and nothing only where nothing can serve.  The order in which
    templates come in makes no difference, nor does a template that cannot
    serve or comes after the chosen one. -/
theorem resolve_least (built : store.Built) (classifier : Classifier) (request : Request) :
    (∀ templateType facts ts,
      (Template.resolve templateType facts ts = none ↔
        ∀ t ∈ ts, ¬ t.Serves templateType facts) ∧
      ∀ t, Template.resolve templateType facts ts = some t ↔
        Template.IsFirst templateType facts ts t) ∧
    (store.resolve classifier request = none ↔ ∀ t, ¬ store.Offers classifier request t) ∧
    (∀ t, store.resolve classifier request = some t ↔
      store.Offers classifier request t ∧
        ∀ u, store.Offers classifier request u → t.rank ≤ u.rank) ∧
    (∀ ts us : List Template, ts.Perm us → (ts.map (·.id)).Nodup →
      (ts.foldl insertTemplate store).resolve classifier request =
        (us.foldl insertTemplate store).resolve classifier request) ∧
    ∀ t, store.Idle classifier request t →
      (Assoc.get? t.id store.templates = none →
        (store.insertTemplate t).resolve classifier request =
          store.resolve classifier request) ∧
      (t ∈ Assoc.values store.templates →
        (store.withoutTemplate t.id).resolve classifier request =
          store.resolve classifier request) := by
  have keyed := built.keyed
  refine ⟨?_, resolve_eq_none_iff, ?_, ?_, ?_⟩
  · intro templateType facts ts
    exact ⟨Template.resolve_eq_none_iff, fun t => Template.resolve_eq_some_iff⟩
  · intro t
    exact keyed.resolve_eq_some_iff
  · intro ts us perm distinct
    rw [foldl_insertTemplate_perm perm distinct store]
  · intro t idle
    exact ⟨keyed.resolve_insertTemplate idle, keyed.resolve_withoutTemplate idle⟩

/-- Two pages of one priority, one of them for visitors who are not logged in; a
    page that would come first, but for others; and a draft. -/
theorem resolve_least_pages :
    let loggedIn : Condition.Rule := { field := "logged_in", value := .bool true }
    let first : Template :=
      { id := 1, templateType := "page",
        conditions := { rules := [{ loggedIn with operator := .isNot }] } }
    let second : Template := { id := 2, templateType := "page" }
    let members : Template :=
      { id := 3, templateType := "page", priority := 1, conditions := { rules := [loggedIn] } }
    let draft : Template := { id := 4, templateType := "page", priority := 0, status := .draft }
    let store := [second, members, first].foldl insertTemplate {}
    let request : Request := { kind := .page, now := default }
    store.Built ∧ store.resolve Request.templateType request = some first ∧
      ([first, second, members].foldl insertTemplate {}).resolve Request.templateType request =
        some first ∧
      (store.insertTemplate draft).resolve Request.templateType request = some first ∧
      (store.withoutTemplate second.id).resolve Request.templateType request = some first ∧
      (store.withoutTemplate members.id).resolve Request.templateType request = some first := by
  intro loggedIn first second members draft store request
  have built : store.Built := Built.empty.foldl Built.insertTemplate [second, members, first]
  obtain ⟨-, -, hsome, -, hidle⟩ := resolve_least built Request.templateType request
  obtain ⟨-, -, -, horder, -⟩ := resolve_least .empty Request.templateType request
  have hfirst : store.resolve Request.templateType request = some first := by
    refine (hsome first).mpr ⟨⟨by decide, "page", rfl, by decide⟩, ?_⟩
    rintro u ⟨hmem, templateType, htype, hserves⟩
    obtain rfl : "page" = templateType := Option.some.inj htype
    have hcases : u = first ∨ u = second ∨ u = members := by
      simpa [store, Assoc.values, insertTemplate, Assoc.insert, first, second, members] using hmem
    rcases hcases with rfl | rfl | rfl
    · decide
    · decide
    · exact absurd hserves (by decide)
  have hperm : [second, members, first].Perm [first, second, members] :=
    List.perm_append_singleton first [second, members]
  refine ⟨built, hfirst, ?_, ?_, ?_, ?_⟩
  · rw [← horder _ _ hperm (by decide)]
    exact hfirst
  · rw [(hidle draft (.inl rfl)).1 (by decide)]
    exact hfirst
  · rw [(hidle second (.inr (.inr (.inr ⟨first, hfirst, by decide⟩)))).2 (by decide)]
    exact hfirst
  · rw [(hidle members (.inr (.inr (.inl (by decide))))).2 (by decide)]
    exact hfirst

end Store

end PageLoom
