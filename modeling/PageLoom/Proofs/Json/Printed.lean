import PageLoom.Proofs.Json.Tokens

/-!
# Printed values — what is printed reads back

    The tokens of a value hand it to the container around it, whatever comes
    after, as long as the containers nest no deeper than the reader goes
    (`valueFrom_tokens`).  With the tokens that its characters give, the
    printed text of a value reads as the value (`read_print`).
-/

namespace PageLoom.Json

theorem valueFrom_step {state state' : Reading} {token : Token}
    (hstep : state.step token = some state') (ts : List Token) :
    valueFrom state (token :: ts) = valueFrom state' ts := by
  rw [valueFrom, hstep]
  rfl

/-- No value starts with the end of an array, so a first item is read as any
    other. -/
theorem valueFrom_itemOrClose (stack : List Frame) (item : Json) (items : List Json)
    (ts : List Token) :
    valueFrom (.itemOrClose stack) (itemTokens (item :: items) ++ ts) =
      valueFrom (.value (.item [] :: stack)) (itemTokens (item :: items) ++ ts) := by
  cases items with
  | nil => cases item <;> rfl
  | cons next items => cases item <;> rfl

/-- A first key is read as any other. -/
theorem valueFrom_keyOrClose (stack : List Frame) (member : String × Json)
    (members : List (String × Json)) (ts : List Token) :
    valueFrom (.keyOrClose stack) (memberTokens (member :: members) ++ ts) =
      valueFrom (.key stack []) (memberTokens (member :: members) ++ ts) := by
  cases members with
  | nil => rfl
  | cons next members => rfl

/-- A value with `room` containers inside is handed to the container around
    it. -/
def Delivers (room : Nat) (value : Json) : Prop :=
  ∀ (stack : List Frame) (ts : List Token), stack.length + room ≤ depthLimit →
    valueFrom (.value stack) (tokens value ++ ts) = valueFrom (deliver value stack) ts

/-- The items of an array are gathered up to its end. -/
theorem valueFrom_itemTokens {room : Nat} {item : Json} {items : List Json}
    (hitems : ∀ v ∈ item :: items, Delivers room v) {stack : List Frame}
    (hroom : stack.length + 1 + room ≤ depthLimit) (done : List Json) (ts : List Token) :
    valueFrom (.value (.item done :: stack)) (itemTokens (item :: items) ++ .closeArray :: ts) =
      valueFrom (deliver (.array (done.reverse ++ item :: items)) stack) ts := by
  induction items generalizing item done with
  | nil =>
      have hitem := hitems item List.mem_cons_self (.item done :: stack) (.closeArray :: ts) hroom
      rw [itemTokens, hitem]
      refine (valueFrom_step rfl _).trans ?_
      rw [List.reverse_cons]
  | cons next items ih =>
      obtain ⟨hitem, hrest⟩ := List.forall_mem_cons.mp hitems
      rw [itemTokens_cons_cons, List.append_assoc, hitem (.item done :: stack) _ hroom]
      refine (valueFrom_step rfl _).trans ((ih hrest (item :: done)).trans ?_)
      rw [List.reverse_cons, List.append_assoc]
      rfl

/-- The members of an object are gathered up to its end. -/
theorem valueFrom_memberTokens {room : Nat} {member : String × Json}
    {members : List (String × Json)} (hmembers : ∀ m ∈ member :: members, Delivers room m.2)
    {stack : List Frame} (hroom : stack.length + 1 + room ≤ depthLimit)
    (done : List (String × Json)) (ts : List Token) :
    valueFrom (.key stack done) (memberTokens (member :: members) ++ .closeObject :: ts) =
      valueFrom (deliver (ofMembers (done.reverse ++ member :: members)) stack) ts := by
  induction members generalizing member done with
  | nil =>
      obtain ⟨key, value⟩ := member
      have hvalue := hmembers _ List.mem_cons_self (.member done key :: stack)
        (.closeObject :: ts) hroom
      refine (valueFrom_step rfl _).trans ((valueFrom_step rfl _).trans (hvalue.trans ?_))
      refine (valueFrom_step rfl _).trans ?_
      rw [List.reverse_cons]
  | cons next members ih =>
      obtain ⟨key, value⟩ := member
      obtain ⟨hvalue, hrest⟩ := List.forall_mem_cons.mp hmembers
      rw [memberTokens_cons_cons]
      simp only [List.append_assoc, List.cons_append]
      refine (valueFrom_step rfl _).trans ((valueFrom_step rfl _).trans
        ((hvalue (.member done key :: stack) _ hroom).trans ?_))
      refine (valueFrom_step rfl _).trans ((ih hrest ((key, value) :: done)).trans ?_)
      rw [List.reverse_cons, List.append_assoc]
      rfl

/-- **The tokens of a value hand it over**, whatever comes after. -/
theorem valueFrom_tokens {room : Nat} {value : Json} (kept : value.Kept room) :
    Delivers room value := by
  induction kept with
  | null => exact fun _ _ _ => valueFrom_step rfl _
  | bool b => exact fun _ _ _ => valueFrom_step rfl _
  | number _ => exact fun _ _ _ => valueFrom_step rfl _
  | string s => exact fun _ _ _ => valueFrom_step rfl _
  | @array room items _ ih =>
      intro stack ts hroom
      have hopen : (Reading.value stack).step .openArray = some (.itemOrClose stack) :=
        if_pos (by omega)
      rw [tokens]
      simp only [List.cons_append, List.append_assoc, List.nil_append]
      rw [valueFrom_step hopen]
      cases items with
      | nil => exact valueFrom_step rfl _
      | cons item items =>
          rw [valueFrom_itemOrClose]
          exact valueFrom_itemTokens ih (by omega) [] ts
  | @object room members sorted _ ih =>
      intro stack ts hroom
      have hopen : (Reading.value stack).step .openObject = some (.keyOrClose stack) :=
        if_pos (by omega)
      rw [tokens]
      simp only [List.cons_append, List.append_assoc, List.nil_append]
      rw [valueFrom_step hopen]
      cases members with
      | nil => exact valueFrom_step rfl _
      | cons member members =>
          rw [valueFrom_keyOrClose, valueFrom_memberTokens ih (by omega), List.reverse_nil,
            List.nil_append, ofMembers, sorted.ofList_eq]

/-- **What is printed reads back.** -/
theorem read_print {value : Json} (kept : value.Kept depthLimit) :
    read (print value) = some value := by
  have htokens : tokensFrom .between (chars value) = some (tokens value) := by
    have hrest : tokensFrom .between [] = some [] := rfl
    have h := tokensFrom_chars kept (by simp [Stops]) hrest
    rwa [List.append_nil, List.append_nil] at h
  have hvalue := valueFrom_tokens kept [] [] (Nat.le_of_eq (Nat.zero_add _))
  rw [List.append_nil] at hvalue
  rw [read, print, String.toList_ofList, readChars, htokens]
  exact hvalue

end PageLoom.Json
