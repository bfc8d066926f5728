import PageLoom.Content.Engine
import PageLoom.Proofs.Content.Registration

/-!
# The queried post — two contexts that read alike

    The fields of a post describe the post of a given identifier, or without
    one the post that the request is about.  The built-in fields read nothing
    of a context but its request and that post (`ReadsPost`), and the built-in
    filters nothing but its request (`ReadsRequest`).  A context that names
    the queried post therefore differs from one that names none in its table
    of values at most.

    That table is read when a field declines.  Its one key is `post_id`, which
    the fields of a post never decline when there is one.  So every field has
    one value in both contexts (`resolve_forPost`), and every text is filled
    alike (`fill_forPost`).
-/

namespace PageLoom

/-- **Contexts alike**: they have one request and one post in hand. -/
structure Context.Alike (a b : Context) : Prop where
  request : a.request = b.request
  post : a.post? = b.post?

/-- A resolver reads nothing but the request and the post in hand. -/
def ReadsPost (resolver : Resolver) : Prop :=
  ∀ (name : String) (a b : Context), a.Alike b → resolver name a = resolver name b

/-- A filter reads nothing of a context but the request. -/
def ReadsRequest (filter : Filter) : Prop :=
  ∀ (value : Json) (arg : Option String) (a b : Context), a.request = b.request →
    filter value arg a = filter value arg b

/-! ## Fields -/

namespace FieldRegistry

/-- The registrations of the built-in fields. -/
def builtInRegistrations : List Registration :=
  [⟨.name "current_year", Field.currentYear⟩, ⟨.name "current_date", Field.currentDate⟩,
    ⟨.lead "site_", Field.site⟩, ⟨.lead "post_", Field.post⟩, ⟨.lead "post_meta:", Field.postMeta⟩,
    ⟨.lead "user_", Field.user⟩, ⟨.lead "acf:", Field.customField⟩, ⟨.lead "menu:", Field.menu⟩,
    ⟨.lead "widget:", Field.widgetArea⟩]

theorem builtIn_eq : builtIn = afterRegistrations builtInRegistrations := rfl

/-- What a lookup finds has been registered. -/
theorem mem_of_lookup {rs : List Registration} {name : String} {resolver : Resolver}
    (h : (afterRegistrations rs).lookup name = some resolver) :
    resolver ∈ rs.map Registration.resolver := by
  have hchoice := chooses_lookup rs name
  rw [h] at hchoice
  cases hchoice with
  | exact hlast => exact List.mem_map.mpr ⟨_, hlast.mem, rfl⟩
  | longest _ hlast => exact List.mem_map.mpr ⟨_, hlast.mem, rfl⟩

/-- **The built-in fields** read nothing but the request and the post in hand. -/
theorem readsPost_builtIn {resolver : Resolver}
    (h : resolver ∈ builtInRegistrations.map Registration.resolver) : ReadsPost resolver := by
  intro name a b alike
  simp only [builtInRegistrations, List.map_cons, List.map_nil, List.mem_cons,
    List.not_mem_nil, or_false] at h
  rcases h with rfl | rfl | rfl | rfl | rfl | rfl | rfl | rfl | rfl
  · unfold Field.currentYear
    rw [alike.request]
  · unfold Field.currentDate
    rw [alike.request]
  · unfold Field.site
    rw [alike.request]
  · unfold Field.post Field.ofPost Field.dateText
    rw [alike.request, alike.post]
  · unfold Field.postMeta
    rw [alike.post]
  · unfold Field.user
    rw [alike.request]
  · unfold Field.customField
    rw [alike.post]
  · unfold Field.menu
    rw [alike.request]
  · unfold Field.widgetArea
    rw [alike.request]

end FieldRegistry

/-! ## Filters -/

namespace FilterRegistry

/-- A filter that is found is one of the entries. -/
theorem mem_of_get? {name : String} {filter : Filter} {entries : List (String × Filter)}
    (h : Assoc.get? name (Assoc.ofList entries) = some filter) : (name, filter) ∈ entries :=
  Assoc.mem_of_mem_ofList ((Assoc.Sorted.ofList entries).mem_iff.mpr h)

/-- **The built-in filters** read nothing of a context but the request. -/
theorem readsRequest_builtIn {name : String} {filter : Filter}
    (h : Assoc.get? name builtIn.entries = some filter) : ReadsRequest filter := by
  intro value arg a b hrequest
  have hmem := mem_of_get? h
  simp only [List.mem_cons, Prod.mk.injEq, List.not_mem_nil, or_false] at hmem
  rcases hmem with ⟨-, rfl⟩ | ⟨-, rfl⟩ | ⟨-, rfl⟩ | ⟨-, rfl⟩ | ⟨-, rfl⟩ | ⟨-, rfl⟩ | ⟨-, rfl⟩ |
    ⟨-, rfl⟩ | ⟨-, rfl⟩ | ⟨-, rfl⟩ | ⟨-, rfl⟩ | ⟨-, rfl⟩ | ⟨-, rfl⟩ | ⟨-, rfl⟩ | ⟨-, rfl⟩ | ⟨-, rfl⟩
  any_goals rfl
  -- only the filter of dates looks at its context, for the site's pattern
  unfold Filter.date
  rw [hrequest]

/-- A built-in filter does the same in contexts with one request. -/
theorem apply_builtIn (name : String) (value : Json) (arg : Option String) {a b : Context}
    (h : a.request = b.request) :
    builtIn.apply name value arg a = builtIn.apply name value arg b := by
  rw [apply, apply]
  cases hfilter : Assoc.get? name builtIn.entries with
  | none => rfl
  | some filter => exact readsRequest_builtIn hfilter value arg a b h

end FilterRegistry

/-! ## Substitution -/

namespace Engine

open Content

/-- **Tokens with the same text are filled alike**: if every field has one value in
    both contexts, every text becomes the same. -/
theorem fillWith_congr (guard : String → String) {a b : Context} (h : a.request = b.request)
    (hfields : ∀ name, FieldRegistry.builtIn.resolve name a = FieldRegistry.builtIn.resolve name b)
    (text : String) : Engine.fillWith {} guard a text = Engine.fillWith {} guard b text := by
  have htoken : ∀ token : Token, Engine.evaluate {} a token = Engine.evaluate {} b token := by
    intro token
    have hfilter : (fun (value : Json) (call : FilterCall) =>
        FilterRegistry.builtIn.apply call.name value call.arg a) =
          fun value call => FilterRegistry.builtIn.apply call.name value call.arg b := by
      funext value call
      exact FilterRegistry.apply_builtIn call.name value call.arg h
    have hfield := hfields token.field
    rw [evaluate, evaluate]
    dsimp only
    rw [hfilter, hfield]
  have hpiece : Engine.fillPiece {} guard a = Engine.fillPiece {} guard b := by
    funext piece
    cases piece with
    | literal c => rfl
    | token token => rw [fillPiece, fillPiece, htoken]
  rw [fillWith, fillWith, hpiece]

end Engine

/-! ## The queried post -/

namespace Context

variable {request : Request} {post : Post}

theorem findPost_queried (h : request.post = some post) : request.findPost post.id = some post := by
  rw [Request.findPost, h, Option.toList_some, List.singleton_append, List.find?_cons_of_pos]
  exact beq_self_eq_true post.id

/-- The context of the queried post has that post in hand, whatever the loop
    holds. -/
theorem post?_forPost (h : request.post = some post) :
    (forPost request post.id).post? = some post := by
  have hid : Assoc.get? "post_id" (forPost request post.id).data = some (.ofNat post.id) := by
    rw [forPost, withValue, Assoc.get?_insert, if_pos rfl]
  have hread : idOf (.ofNat post.id) = some post.id := by
    simp [idOf, Json.ofNat, Number.natural?]
  rw [post?, hid]
  show (idOf (.ofNat post.id)).bind _ = _
  rw [hread]
  exact findPost_queried h

theorem alike_forPost (h : request.post = some post) :
    (forPost request post.id).Alike { request } where
  request := rfl
  post := (post?_forPost h).trans h.symm

/-- Under any name but `post_id` neither context has a value of its own. -/
theorem data_forPost (request : Request) (id : Nat) {name : String} (h : name ≠ "post_id") :
    Assoc.get? name (forPost request id).data = none := by
  rw [forPost, withValue, Assoc.get?_insert, if_neg h]
  rfl

/-- **Every field has one value** in both contexts. -/
theorem resolve_forPost (h : request.post = some post) (name : String) :
    FieldRegistry.builtIn.resolve name (forPost request post.id) =
      FieldRegistry.builtIn.resolve name { request } := by
  have alike := alike_forPost h
  rw [FieldRegistry.resolve, FieldRegistry.resolve]
  by_cases hname : name = "post_id"
  · -- the post in hand answers in both
    subst hname
    have hlookup : FieldRegistry.builtIn.lookup "post_id" = some Field.post := rfl
    have hqueried : Field.post "post_id" { request } = some (.ofNat post.id) := by
      rw [Field.post, ← alike.post, post?_forPost h]
      rfl
    have hnamed : Field.post "post_id" (forPost request post.id) = some (.ofNat post.id) := by
      rw [Field.post, post?_forPost h]
      rfl
    rw [hlookup, Option.bind_some, Option.bind_some, hqueried, hnamed]
    rfl
  · rw [data_forPost request post.id hname]
    cases hlookup : FieldRegistry.builtIn.lookup name with
    | none => rfl
    | some resolver =>
        rw [FieldRegistry.builtIn_eq] at hlookup
        have hreads := FieldRegistry.readsPost_builtIn (FieldRegistry.mem_of_lookup hlookup)
        rw [Option.bind_some, Option.bind_some, hreads name _ _ alike]
        rfl

end Context

/-- **The queried post by its identifier**: a text is filled alike in the context
    that names the queried post and in the one that names no post, even if
    posts of the loop share its identifier. -/
theorem Engine.fill_forPost {request : Request} {post : Post} (h : request.post = some post)
    (text : String) :
    Engine.fill {} (Context.forPost request post.id) text = Engine.fill {} { request } text := by
  have alike := Context.alike_forPost h
  exact Engine.fillWith_congr id alike.request (Context.resolve_forPost h) text

/-- A post of the loop that has the same identifier is passed over. -/
theorem Engine.fill_forPost_shared :
    let post : Post := { id := 7, title := "Here" }
    let request : Request :=
      { now := default, post := some post, posts := [{ id := 7, title := "There" }] }
    let text := "\x7b\x7bpost_title|upper\x7d\x7d \x7b\x7bpost_id\x7d\x7d \x7b\x7bpost_missing\x7d\x7d."
    request.post = some post ∧ Engine.fill {} (Context.forPost request 7) text = "HERE 7 ." := by
  intro post request text
  have hpost : request.post = some post := rfl
  have hfill : Engine.fill {} { request } text = "HERE 7 ." := by decide +kernel
  exact ⟨hpost, (Engine.fill_forPost hpost text).trans hfill⟩

end PageLoom
