import PageLoom.Page.Renderer
import PageLoom.Proofs.Html.Parts

/-!
# Generated markup — data stays in its slots

    Three kinds of markup are made around data: images, links to terms, and
    the head of a document up to its title.  Each is written as tags with
    slots, so a reader finds the tags that its kind has, and in the slots
    exactly the data (`reads_image`, `reads_links`, `reads_head`).  The tags
    of an image are there if it has a source, links are as many as the terms,
    and the tags of a head are always the same.

    The fields that make such markup are those of the logo, the avatar, the
    thumbnail, the categories and the tags.  Without a post its fields are
    those of an empty one (`resolve_post`), so they need no case of their own.
    What a reader finds in the values of all of them, and in the start of every
    document, is put together in `reads_generated`.
-/

namespace PageLoom.Html

/-- The texts of generated markup that are not data are written as they are. -/
theorem escape_fixed : ∀ s ∈ ["", "\n", ", ", "utf-8", "viewport",
    "width=device-width, initial-scale=1", "codesite-logo", "codesite-thumbnail", "avatar"],
    escape s = s := by
  decide +kernel

/-! ## Images -/

/-- The outline of an image; nothing without a source. -/
def imageOutline (isAbsent : Bool) : List Part :=
  if isAbsent then [.text []]
  else
    [.text [], .tag "img src=".toList, .value [], .tag " class=".toList, .value [],
      .tag " alt=".toList, .value [], .tag [], .text []]

/-- What the slots of an image hold. -/
def imageSlots (source cls description : String) : List String :=
  if source.isEmpty then [""] else ["", source, cls, description, ""]

/-- The tag of an image. -/
def imageTag (source cls description : String) : Tag :=
  ⟨"", [("img src=", source), (" class=", cls), (" alt=", description)], ""⟩

theorem wellFormed_imageTag (source cls description : String) :
    (imageTag source cls description).WellFormed := by
  simp only [imageTag, Tag.WellFormed, List.forall_mem_cons]
  decide

/-- **What a reader finds in an image** whose class needs no escaping. -/
theorem reads_image {cls : String} (hcls : escape cls = cls) (source description : String) :
    Reads (Field.optionalImage source cls description) (imageOutline source.isEmpty)
      (imageSlots source cls description) := by
  have hnone : escape "" = "" := escape_fixed "" (by decide)
  rw [Field.optionalImage, imageSlots]
  cases source.isEmpty with
  | true =>
      have htext : ("" : String).toList = writeTags [] "" := by
        simp [writeTags, hnone]
      exact reads_of_writeTags htext (List.forall_mem_nil _)
  | false =>
      have htext : (Field.image source cls description).toList =
          writeTags [imageTag source cls description] "" := by
        unfold Field.image
        simp [writeTags, imageTag, Tag.text, Tag.valuesText, hcls, hnone]
      exact reads_of_writeTags htext
        (List.forall_mem_singleton.mpr (wellFormed_imageTag source cls description))

/-! ## Links -/

/-- The outline of as many links. -/
def linksOutline : Nat → List Part
  | 0 => [.text []]
  | count + 1 =>
      .text [] :: .tag "a href=".toList :: .value [] :: .tag [] :: .text [] :: .tag "/a".toList ::
        linksOutline count

/-- What the slots of links hold, the text `lead` standing before the first. -/
def linksSlots (lead : String) : List Term → List String
  | [] => [""]
  | term :: terms => lead :: term.url :: term.name :: linksSlots ", " terms

/-- The tags of links, the text `lead` standing before the first. -/
def linksTags (lead : String) : List Term → List Tag
  | [] => []
  | term :: terms =>
      ⟨lead, [("a href=", term.url)], ""⟩ :: ⟨term.name, [], "/a"⟩ :: linksTags ", " terms

theorem wellFormed_linksTags (lead : String) (terms : List Term) :
    ∀ tag ∈ linksTags lead terms, tag.WellFormed := by
  induction terms generalizing lead with
  | nil => exact List.forall_mem_nil _
  | cons term terms ih =>
      refine List.forall_mem_cons.mpr ⟨?_, List.forall_mem_cons.mpr ⟨?_, ih ", "⟩⟩
      · simp only [Tag.WellFormed, List.forall_mem_cons]
        decide
      · simp only [Tag.WellFormed]
        decide

theorem outline_linksTags (lead : String) (terms : List Term) :
    (linksTags lead terms).flatMap Tag.outline ++ [.text []] = linksOutline terms.length := by
  induction terms generalizing lead with
  | nil => rfl
  | cons term terms ih =>
      simp only [linksTags, List.flatMap_cons, ih, List.length_cons,
        linksOutline, Tag.outline, List.flatMap_nil, List.cons_append, List.nil_append,
        String.toList_empty]

theorem slots_linksTags (lead : String) (terms : List Term) :
    (linksTags lead terms).flatMap Tag.slots ++ [""] = linksSlots lead terms := by
  induction terms generalizing lead with
  | nil => rfl
  | cons term terms ih =>
      simp only [linksTags, List.flatMap_cons, ih, linksSlots, Tag.slots,
        List.map_cons, List.map_nil, List.cons_append, List.nil_append]

/-- A link is written as its two tags. -/
theorem text_termLink (lead : String) (term : Term) (terms : List Term) (last : String) :
    writeTags (linksTags lead (term :: terms)) last =
      (escape lead).toList ++
        ((Field.termLink term).toList ++ writeTags (linksTags ", " terms) last) := by
  unfold Field.termLink
  simp [writeTags, linksTags, Tag.text, Tag.valuesText]

/-- Links are written as their tags. -/
theorem text_termLinks (terms : List Term) :
    (Field.termLinks terms).toList = writeTags (linksTags "" terms) "" := by
  have hnone : escape "" = "" := escape_fixed "" (by decide)
  have hcomma : escape ", " = ", " := escape_fixed ", " (by decide)
  rw [Field.termLinks, String.toList_intercalate, List.map_map]
  cases terms with
  | nil => simp [writeTags, linksTags, hnone]
  | cons term terms =>
      induction terms generalizing term with
      | nil =>
          rw [text_termLink, hnone]
          simp [writeTags, linksTags, hnone]
      | cons next terms ih =>
          have hrest := ih next
          rw [text_termLink, hnone] at hrest
          rw [text_termLink, text_termLink, hcomma, hnone, List.map_cons, List.map_cons,
            List.intercalate_cons_cons, ← List.map_cons, hrest]
          simp

/-- **What a reader finds in links.** -/
theorem reads_links (terms : List Term) :
    Reads (Field.termLinks terms) (linksOutline terms.length) (linksSlots "" terms) := by
  rw [← outline_linksTags "", ← slots_linksTags]
  exact reads_of_writeTags (text_termLinks terms) (wellFormed_linksTags "" terms)

/-! ## Heads -/

/-- The document up to its title. -/
def headText (language title : String) : String :=
  "<!DOCTYPE html>\n<html lang=\"" ++ escape language ++ "\">\n"
    ++ "<head>\n<meta charset=\"utf-8\">\n"
    ++ "<meta name=\"viewport\" content=\"width=device-width, initial-scale=1\">\n"
    ++ "<title>" ++ escape title ++ "</title>\n"

/-- The document after its title. -/
def bodyText (page : RenderedPage) : String :=
  Document.part page.css ++ "</head>\n<body>\n" ++ Document.part page.html
    ++ Document.part page.js ++ "</body>\n</html>\n"

theorem ofPage_eq (page : RenderedPage) (request : Request) :
    Document.ofPage page request =
      headText request.site.language (Document.title request) ++ bodyText page := by
  unfold Document.ofPage headText bodyText
  simp only [String.append_assoc]

/-- The tags of a head. -/
def headTags (language title : String) : List Tag :=
  [⟨"", [], "!DOCTYPE html"⟩, ⟨"\n", [("html lang=", language)], ""⟩, ⟨"\n", [], "head"⟩,
    ⟨"\n", [("meta charset=", "utf-8")], ""⟩,
    ⟨"\n", [("meta name=", "viewport"), (" content=", "width=device-width, initial-scale=1")], ""⟩,
    ⟨"\n", [], "title"⟩, ⟨title, [], "/title"⟩]

/-- The outline of a head. -/
def headOutline : List Part :=
  [.text [], .tag "!DOCTYPE html".toList, .text [], .tag "html lang=".toList, .value [], .tag [],
    .text [], .tag "head".toList, .text [], .tag "meta charset=".toList, .value [], .tag [],
    .text [], .tag "meta name=".toList, .value [], .tag " content=".toList, .value [], .tag [],
    .text [], .tag "title".toList, .text [], .tag "/title".toList, .text []]

/-- What the slots of a head hold. -/
def headSlots (language title : String) : List String :=
  ["", "\n", language, "\n", "\n", "utf-8", "\n", "viewport",
    "width=device-width, initial-scale=1", "\n", title, "\n"]

theorem wellFormed_headTags (language title : String) :
    ∀ tag ∈ headTags language title, tag.WellFormed := by
  simp only [headTags, Tag.WellFormed, List.forall_mem_cons]
  decide

/-- A head is written as its tags. -/
theorem text_head (language title : String) :
    (headText language title).toList = writeTags (headTags language title) "\n" := by
  have hfixed := escape_fixed
  simp only [List.forall_mem_cons] at hfixed
  unfold headText
  simp [writeTags, headTags, Tag.text, Tag.valuesText, hfixed]

/-- **What a reader finds in a head.** -/
theorem reads_head (language title : String) :
    Reads (headText language title) headOutline (headSlots language title) := by
  have houtline : (headTags language title).flatMap Tag.outline ++ [.text []] = headOutline := by
    simp only [headTags, headOutline, Tag.outline, List.flatMap_cons, List.flatMap_nil,
      List.cons_append, List.nil_append, List.append_nil, String.toList_empty]
  have hslots : (headTags language title).flatMap Tag.slots ++ ["\n"] =
      headSlots language title := rfl
  rw [← houtline, ← hslots]
  exact reads_of_writeTags (text_head language title) (wellFormed_headTags language title)

/-! ## Fields -/

/-- **A field shows markup**: its value is a text in which a reader finds the
    outline and the slots. -/
def Shows (name : String) (context : Context) (outline : List Part) (slots : List String) :
    Prop :=
  ∃ markup, FieldRegistry.builtIn.resolve name context = .string markup ∧
    Reads markup outline slots

/-- **A field of the post in hand** that makes text of it, without a post text of
    an empty one: so the values of the context are asked in vain. -/
theorem resolve_post {context : Context} {name : String} {markup : Post → String}
    (hname : FieldRegistry.builtIn.lookup name = some Field.post)
    (hvalue : ∀ post, Field.ofPost context post name = some (.string (markup post)))
    (hempty : markup {} = "")
    (hdata : context.post? = none → Assoc.get? name context.data = none) :
    FieldRegistry.builtIn.resolve name context = .string (markup (context.post?.getD {})) := by
  unfold FieldRegistry.resolve
  rw [hname, Option.bind_some, Field.post]
  cases hpost : context.post? with
  | none =>
      rw [hdata hpost, Option.getD_none, hempty]
      rfl
  | some post =>
      rw [Option.bind_some, hvalue]
      rfl

/-- **The avatar of the visitor**; nothing when nobody is logged in. -/
theorem resolve_avatar (context : Context) :
    FieldRegistry.builtIn.resolve "user_avatar_img" context =
      .string (Field.optionalImage (context.request.user.getD {}).avatarUrl "avatar" "") := by
  have hname : FieldRegistry.builtIn.lookup "user_avatar_img" = some Field.user := rfl
  unfold FieldRegistry.resolve
  rw [hname, Option.bind_some]
  unfold Field.user
  cases context.request.user with
  | none => rfl
  | some user => rfl

/-- The names of the fields that make markup of the post in hand. -/
def postMarkupNames : List String :=
  ["post_thumbnail_img", "post_categories", "post_tags"]

/-- **Data stays in its slots**: whatever the texts of a request are, a reader of
    the markup made of them finds each in its slot, and the tags around the
    slots depend only on which sources are empty and how many terms there are.
    Without a post its fields are those of an empty one, unless the context has
    values under their names. -/
theorem reads_generated (context : Context)
    (hdata : context.post? = none →
      ∀ name ∈ postMarkupNames, Assoc.get? name context.data = none) :
    let site := context.request.site
    let user := context.request.user.getD {}
    let post := context.post?.getD {}
    Shows "site_logo_img" context (imageOutline site.logoUrl.isEmpty)
        (imageSlots site.logoUrl "codesite-logo" site.name) ∧
      Shows "user_avatar_img" context (imageOutline user.avatarUrl.isEmpty)
        (imageSlots user.avatarUrl "avatar" "") ∧
      Shows "post_thumbnail_img" context (imageOutline post.thumbnailUrl.isEmpty)
        (imageSlots post.thumbnailUrl "codesite-thumbnail" post.title) ∧
      Shows "post_categories" context (linksOutline post.categories.length)
        (linksSlots "" post.categories) ∧
      Shows "post_tags" context (linksOutline post.tags.length) (linksSlots "" post.tags) ∧
      ∃ head, (∀ page, Document.ofPage page context.request = head ++ bodyText page) ∧
        Reads head headOutline (headSlots site.language (Document.title context.request)) := by
  intro site user post
  have habsent : ∀ name ∈ postMarkupNames, context.post? = none →
      Assoc.get? name context.data = none := fun name hname hpost => hdata hpost name hname
  refine ⟨?logo, ?avatar, ?thumbnail, ?categories, ?tags, ?head⟩
  case logo =>
    exact ⟨_, rfl, reads_image (escape_fixed _ (by decide)) _ _⟩
  case avatar =>
    exact ⟨_, resolve_avatar context, reads_image (escape_fixed _ (by decide)) _ _⟩
  case thumbnail =>
    exact ⟨_, resolve_post rfl (fun _ => rfl) rfl (habsent _ (by decide)),
      reads_image (escape_fixed _ (by decide)) _ _⟩
  case categories =>
    exact ⟨_, resolve_post rfl (fun _ => rfl) rfl (habsent _ (by decide)), reads_links _⟩
  case tags =>
    exact ⟨_, resolve_post rfl (fun _ => rfl) rfl (habsent _ (by decide)), reads_links _⟩
  case head =>
    exact ⟨_, fun page => ofPage_eq page context.request, reads_head _ _⟩

/-- The fields of a post whose texts hold marks and references, and of none. -/
theorem reads_generated_marks :
    let tag : Term := { name := "&lt;'", url := "?\"&amp;" }
    let post : Post := { title := "\"><b>", thumbnailUrl := "/a'b", tags := [tag] }
    let context : Context := { request := { now := default, post := some post } }
    let bare : Context := { request := { now := default }, data := [("label", .string "<b>")] }
    FieldRegistry.builtIn.resolve "post_thumbnail_img" context = .string
        "<img src=\"/a&#039;b\" class=\"codesite-thumbnail\" alt=\"&quot;&gt;&lt;b&gt;\">" ∧
      Shows "post_thumbnail_img" context (imageOutline false)
        ["", "/a'b", "codesite-thumbnail", "\"><b>", ""] ∧
      Shows "post_tags" context (linksOutline 1) ["", "?\"&amp;", "&lt;'", ""] ∧
      Shows "post_tags" bare (linksOutline 0) [""] := by
  intro tag post context bare
  have hpost : context.post? = some post := rfl
  have himage : Field.optionalImage "/a'b" "codesite-thumbnail" "\"><b>" =
      "<img src=\"/a&#039;b\" class=\"codesite-thumbnail\" alt=\"&quot;&gt;&lt;b&gt;\">" := by
    decide +kernel
  have hbare : ∀ name ∈ postMarkupNames, (Assoc.get? name bare.data).isNone = true := by
    decide
  have hshown := reads_generated context fun hnone => nomatch hpost.symm.trans hnone
  have hshownBare := reads_generated bare fun _ name hname =>
    Option.isNone_iff_eq_none.mp (hbare name hname)
  exact ⟨congrArg Json.string himage, hshown.2.2.1, hshown.2.2.2.2.1, hshownBare.2.2.2.2.1⟩

end PageLoom.Html
