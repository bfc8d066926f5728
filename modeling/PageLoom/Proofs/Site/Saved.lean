import PageLoom.Proofs.Entity.Settled
import PageLoom.Proofs.Json.Printed
import PageLoom.Site.Store

/-!
# Saved sites — what is saved is what is loaded

    Settings are stored with the values that they keep under other names.  The
    fixed fields settle like those of any record; the other values are kept in
    order of keys and under no name of a fixed field, so that they are found
    again beside them (`Settings.Keeps.extraOf_ofMembers`).

    A site settles with its settings and entities.  So reading a document brings
    it to a form that saving and loading leave alone, as a value and, where the
    numbers of the settings read back, as a text (`Site.decode_stored`).
-/

namespace PageLoom

/-! ## Settings -/

/-- A mode is taken back by its word. -/
theorem OutputMode.ofName_name (mode : OutputMode) : ofName mode.name = mode := by
  cases mode <;> decide

namespace Settings

/-- **What settings keep under other names**: values in order of keys. -/
structure Keeps (extra : List (String × Json)) : Prop where
  sorted : Assoc.Sorted extra
  foreign : ∀ key ∈ extra.map Prod.fst, key ∉ fieldNames
  ordered : ∀ entry ∈ extra, entry.2.Ordered

/-- Other settings are the entries under other names, as JSON values in key order. -/
theorem extraOf_eq (entries : List (String × Node)) :
    extraOf entries =
      (Node.jsonMembers? (entries.filter fun (key, _) => !fieldNames.contains key)).map
        Assoc.ofList := by
  rw [extraOf, Node.mapM_eq_jsonMembers?]
  exact Option.map_eq_bind.symm

/-- Settings that were read keep what the record needs: ordered values under names
    of their own, in key order. -/
theorem keeps_of_extraOf {entries : List (String × Node)} {extra : List (String × Json)}
    (h : extraOf entries = some extra) : Keeps extra := by
  rw [extraOf_eq] at h
  obtain ⟨members, hmembers, rfl⟩ := Option.map_eq_some_iff.mp h
  refine ⟨.ofList members, ?_, ?_⟩
  · intro key hkey
    obtain ⟨entry, hentry, rfl⟩ := List.mem_map.mp hkey
    have hmember := List.mem_map_of_mem (f := Prod.fst) (Assoc.mem_of_mem_ofList hentry)
    rw [Node.keys_of_jsonMembers? hmembers] at hmember
    obtain ⟨⟨name, node⟩, hnode, hname⟩ := List.mem_map.mp hmember
    have hforeign := (List.mem_filter.mp hnode).2
    simpa [← hname] using hforeign
  · intro entry hentry
    exact Node.ordered_of_jsonMembers? _ hmembers entry (Assoc.mem_of_mem_ofList hentry)

variable {fixed extra : List (String × Json)}

/-- No kept setting has the name of a fixed one. -/
theorem Keeps.distinct (keeps : Keeps extra) (hfixed : fixed.map Prod.fst = fieldNames) :
    ((fixed ++ extra).map Prod.fst).Nodup := by
  rw [List.map_append, hfixed]
  refine List.nodup_append.mpr ⟨by decide, keeps.sorted.nodup, ?_⟩
  rintro key hfield _ hextra rfl
  exact keeps.foreign key hextra hfield

/-- Beside the fixed members the others are found again. -/
theorem Keeps.filter_ofList (keeps : Keeps extra) (hfixed : fixed.map Prod.fst = fieldNames) :
    ((Assoc.ofList (fixed ++ extra)).filter fun member => !fieldNames.contains member.1) =
      extra := by
  refine Assoc.Sorted.ext ((Assoc.Sorted.ofList _).sublist List.filter_sublist) keeps.sorted ?_
  intro key
  rw [Assoc.get?_filter fun key => !fieldNames.contains key,
    Assoc.get?_ofList (keeps.distinct hfixed), Assoc.get?_append]
  -- a name of a fixed field is left out, any other is among the kept ones only
  by_cases hkey : key ∈ fieldNames
  · have hextra : key ∉ extra.map Prod.fst := fun hextra => keeps.foreign key hextra hkey
    rw [if_neg (by simp [hkey]), Assoc.get?_eq_none_of_not_mem hextra]
  · rw [if_pos (by simp [hkey]), Assoc.get?_eq_none_of_not_mem (hfixed ▸ hkey), Option.none_or]

/-- Beside the fixed members the kept settings are found again. -/
theorem Keeps.extraOf_ofMembers (keeps : Keeps extra) (hfixed : fixed.map Prod.fst = fieldNames) :
    extraOf (Node.ofMembers (Assoc.ofList (fixed ++ extra))) = some extra := by
  have hvalues : ∀ entry ∈ extra, (Node.ofJson entry.2).json? = some entry.2 := fun entry hentry =>
    Node.json?_ofJson (keeps.ordered entry hentry)
  rw [extraOf_eq, Node.filter_ofMembers fun key => !fieldNames.contains key,
    keeps.filter_ofList hfixed, Node.jsonMembers?_ofMembers hvalues, Option.map_some, keeps.sorted.ofList_eq]

/-- **Settings settle**: the fixed fields one by one, the others as they are. -/
theorem settles : Node.Settles ofNode? toJson := by
  intro node s h
  obtain ⟨entries, -, h⟩ := Option.bind_eq_some_iff.mp h
  obtain ⟨record, -, h⟩ := Option.bind_eq_some_iff.mp h
  obtain ⟨enabled, henabled, h⟩ := Option.bind_eq_some_iff.mp h
  obtain ⟨theme, htheme, h⟩ := Option.bind_eq_some_iff.mp h
  obtain ⟨mode, hmode, h⟩ := Option.bind_eq_some_iff.mp h
  obtain ⟨minify, hminify, h⟩ := Option.bind_eq_some_iff.mp h
  obtain ⟨header, hheader, h⟩ := Option.bind_eq_some_iff.mp h
  obtain ⟨footer, hfooter, h⟩ := Option.bind_eq_some_iff.mp h
  obtain ⟨main, hmain, h⟩ := Option.bind_eq_some_iff.mp h
  obtain ⟨css, hcss, h⟩ := Option.bind_eq_some_iff.mp h
  obtain ⟨js, hjs, h⟩ := Option.bind_eq_some_iff.mp h
  obtain ⟨logic, hlogic, h⟩ := Option.bind_eq_some_iff.mp h
  obtain ⟨extra, hextra, h⟩ := Option.bind_eq_some_iff.mp h
  have hs := Option.some.inj h
  have keeps := keeps_of_extraOf hextra
  have hfixed : s.fixedMembers.map Prod.fst = fieldNames := rfl
  obtain ⟨stored, hstored, hlookup⟩ :=
    Record.select_stored (keeps.distinct hfixed) fieldNames
  -- the other values stand behind the fixed members and hide none of them
  have stores : stored.Stores s.fixedMembers := by
    intro name value hvalue
    refine hlookup name (hfixed ▸ Assoc.mem_keys_of_get? hvalue) value ?_
    rw [Assoc.get?_append, hvalue, Option.some_or]
  subst hs
  show (Record.select fieldNames (Node.ofMembers (Assoc.ofList _))).bind _ = _
  rw [hstored]
  refine stores.bind henabled rfl Node.settles_bool rfl ?_
  refine stores.bind htheme rfl Node.settles_bool rfl ?_
  refine stores.bind hmode rfl (Node.settles_name fun _ => OutputMode.ofName_name _) rfl ?_
  refine stores.bind hminify rfl Node.settles_bool rfl ?_
  refine stores.bind hheader rfl Column.settles_optionalId rfl ?_
  refine stores.bind hfooter rfl Column.settles_optionalId rfl ?_
  refine stores.bind hmain rfl Column.settles_optionalId rfl ?_
  refine stores.bind hcss rfl Node.settles_text rfl ?_
  refine stores.bind hjs rfl Node.settles_text rfl ?_
  refine stores.bind hlogic rfl Node.settles_bool rfl ?_
  refine Option.bind_eq_some_iff.mpr ⟨extra, keeps.extraOf_ofMembers hfixed, ?_⟩
  rfl

end Settings

/-! ## Sites -/

namespace Site

/-- **Sites settle** with their settings and the records of each kind. -/
theorem settles : Node.Settles ofNode? toJson := by
  intro node site h
  obtain ⟨stored, hstored, stores⟩ :=
    Record.ofNode?_stored fieldNames site.toJson rfl rfl (by decide)
  obtain ⟨record, -, h⟩ := Option.bind_eq_some_iff.mp h
  obtain ⟨settings, hsettings, h⟩ := Option.bind_eq_some_iff.mp h
  obtain ⟨blocks, hblocks, h⟩ := Option.bind_eq_some_iff.mp h
  obtain ⟨layouts, hlayouts, h⟩ := Option.bind_eq_some_iff.mp h
  obtain ⟨templates, htemplates, h⟩ := Option.bind_eq_some_iff.mp h
  obtain ⟨overrides, hoverrides, h⟩ := Option.bind_eq_some_iff.mp h
  obtain rfl := Option.some.inj h
  have hdefault := Settings.settles (show Settings.ofNode? (.map []) = some {} from rfl)
  rw [ofNode?, hstored]
  refine stores.bind hsettings rfl Settings.settles hdefault ?_
  refine stores.bind hblocks rfl (Node.settles_list Block.settles) rfl ?_
  refine stores.bind hlayouts rfl (Node.settles_list Layout.settles) rfl ?_
  refine stores.bind htemplates rfl (Node.settles_list Template.settles) rfl ?_
  refine stores.bind hoverrides rfl (Node.settles_list Override.settles) rfl ?_
  rfl

/-- **Reading a document once is enough.**  The site that is read from any
    document is read again from its stored form, and from the text of that form
    if a text keeps it; the store of the one is the store of the other. -/
theorem decode_stored {document : Node} {site : Site} (h : ofNode? document = some site) :
    ofNode? (.ofJson site.toJson) = some site ∧
      (ofNode? (.ofJson site.toJson)).map Store.ofSite = some (Store.ofSite site) ∧
      (site.toJson.Kept Json.depthLimit →
        (Json.read site.toJson.print).bind (fun value => ofNode? (.ofJson value)) = some site) := by
  have hagain := settles h
  refine ⟨hagain, ?_, ?_⟩
  · rw [hagain, Option.map_some]
  · intro kept
    rw [Json.read_print kept, Option.bind_some, hagain]

/-- Arrays for structures, columns as text, numbers as text, words without
    meaning and a key of the site's own. -/
theorem decode_stored_mixed :
    let rules := "\x7b\"match\":\"some\",\"rules\":[\x7b\"operator\":\"near\",\"value\":7\x7d]\x7d"
    let value : Json := .object [
      ("blocks", .array [.array [.number (.int 3), .string "Hero"],
        .object [("id", .number (.int 4)), ("status", .string "archived")]]),
      ("layouts", .array [.object [("block_order", .string "[3,\"4\",null]"),
        ("use_blocks", .string "no")]]),
      ("settings", .object [("brand", .string "acme"), ("default_header", .string "8")]),
      ("templates", .array [.object [("conditions", .string rules),
        ("content_blocks", .string "[3,\"<b>\"]"), ("id", .number (.int 9))]])]
    ∃ site, ofNode? (.ofJson value) = some site ∧
      site.blocks = [{ id := 3, name := "Hero" }, { id := 4, status := .draft }] ∧
      site.layouts = [{ usesBlocks := false, blockOrder := [3, 4] }] ∧
      site.templates = [{
        id := 9
        content := [.block 3, .markup "<b>"]
        conditions := ⟨.any, [⟨"", .unknown "near", .text "7"⟩]⟩ }] ∧
      site.settings.defaultHeader = some 8 ∧ site.settings.extra.map Prod.fst = ["brand"] ∧
      ofNode? (.ofJson site.toJson) = some site ∧
      (Json.read site.toJson.print).bind (fun text => ofNode? (.ofJson text)) = some site := by
  intro rules value
  have hentities : (ofNode? (.ofJson value)).map (fun site =>
      (site.blocks, site.layouts, site.templates)) =
      some ([{ id := 3, name := "Hero" }, { id := 4, status := .draft }],
        [{ usesBlocks := false, blockOrder := [3, 4] }],
        [{
          id := 9
          content := [.block 3, .markup "<b>"]
          conditions := ⟨.any, [⟨"", .unknown "near", .text "7"⟩]⟩ }]) := by decide +kernel
  have hsettings : (ofNode? (.ofJson value)).map (fun site =>
      (site.settings.defaultHeader, site.settings.extra.map Prod.fst,
        decide (site.toJson.Kept Json.depthLimit))) = some (some 8, ["brand"], true) := by
    decide +kernel
  obtain ⟨site, hsite, hentities⟩ := Option.map_eq_some_iff.mp hentities
  rw [hsite, Option.map_some] at hsettings
  simp only [Option.some.injEq, Prod.mk.injEq] at hentities hsettings
  obtain ⟨hblocks, hlayouts, htemplates⟩ := hentities
  obtain ⟨hheader, hextra, hkept⟩ := hsettings
  obtain ⟨hagain, -, htext⟩ := decode_stored hsite
  exact ⟨site, hsite, hblocks, hlayouts, htemplates, hheader, hextra, hagain,
    htext (of_decide_eq_true hkept)⟩

end Site

end PageLoom
