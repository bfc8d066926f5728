import PageLoom.Proofs.Content.Markup

/-!
# Leftmost markup — every text is leftmost markup in exactly one way

    The pieces that the scanner finds make markup (`Markup.ofPieces`).  It is
    written as the text it was found in, and it is leftmost
    (`Markup.ofPieces_pieces`): where the scanner took a single character, no
    token opened.  Leftmost markup gives back its own pieces, and pieces
    determine the markup, so there is no other (`Markup.leftmost_iff`).

    The value of a token is that of its field after its filters, one after the
    other (`FilterRegistry.Filtered`).  With the law of substitution in leftmost
    markup this says what every text becomes: literals are copied, each token
    gives way to its guarded value, and nothing is read twice
    (`Engine.fillWith_unique_leftmost`).
-/

namespace PageLoom.Content.Markup

/-- The markup with a text before it, which joins the first literal. -/
def prepend (text : List Char) : Markup → Markup
  | ⟨[], last⟩ => ⟨[], text ++ last⟩
  | ⟨(literal, t) :: parts, last⟩ => ⟨(text ++ literal, t) :: parts, last⟩

/-- **The markup that pieces make**. -/
def ofPieces : List Piece → Markup
  | [] => ⟨[], []⟩
  | .literal c :: pieces => (ofPieces pieces).prepend [c]
  | .token t :: pieces => ⟨([], t) :: (ofPieces pieces).parts, (ofPieces pieces).last⟩

theorem prepend_append (a b : List Char) (m : Markup) :
    m.prepend (a ++ b) = (m.prepend b).prepend a := by
  obtain ⟨_ | ⟨part, parts⟩, last⟩ := m
  · exact congrArg (Markup.mk []) (List.append_assoc a b last)
  · exact congrArg (fun literal => Markup.mk ((literal, part.2) :: parts) last)
      (List.append_assoc a b part.1)

theorem filled_prepend (text : List Char) (m : Markup) (value : Token → List Char) :
    (m.prepend text).filled value = text ++ m.filled value := by
  obtain ⟨_ | ⟨part, parts⟩, last⟩ := m
  · rfl
  · rw [prepend, filled_cons, filled_cons, List.append_assoc]

/-- A character at which no token opens joins the first literal. -/
theorem Leftmost.prepend {m : Markup} (h : m.Leftmost) {c : Char}
    (hc : ∀ t : Token, t.WellFormed → ¬t.text <+: c :: m.filled Token.text) :
    (m.prepend [c]).Leftmost := by
  cases h with
  | @last last hlast =>
      have hstart : ∀ t : Token, t.WellFormed → ¬t.text <+: c :: last ++ [] := by
        intro t ht
        rw [List.append_nil]
        exact hc t ht
      exact .last (isLiteral_cons_iff.mpr ⟨hstart, hlast⟩)
  | @part literal last t parts hliteral htoken hrest =>
      rw [filled_cons] at hc
      exact .part (isLiteral_cons_iff.mpr ⟨hc, hliteral⟩) htoken hrest

/-- **The pieces of a text** make leftmost markup that is written as the
    text. -/
theorem ofPieces_pieces (cs : List Char) :
    (ofPieces (pieces cs)).filled Token.text = cs ∧ (ofPieces (pieces cs)).Leftmost := by
  -- along the scanner: a token at a time, or one character where none opens
  induction cs using pieces.induct with
  | case1 =>
      rw [pieces]
      exact ⟨rfl, .last (isLiteral_nil [])⟩
  | case2 c cs t rest hscan ih =>
      obtain ⟨htext, hleftmost⟩ := ih
      obtain ⟨hcs, ht⟩ := scanToken?_eq_some_iff.mp hscan
      rw [(pieces_eq c cs).1 t rest hscan, ofPieces]
      constructor
      · rw [filled_cons, List.nil_append, htext, hcs]
      · exact .part (isLiteral_nil _) ht hleftmost
  | case3 c cs hscan ih =>
      obtain ⟨htext, hleftmost⟩ := ih
      rw [(pieces_eq c cs).2 hscan, ofPieces]
      constructor
      · rw [filled_prepend, htext]
        rfl
      · refine hleftmost.prepend ?_
        rw [htext]
        exact scanToken?_eq_none_iff.mp hscan

/-- The characters of a literal make one literal. -/
theorem ofPieces_append (literal : List Char) (ps : List Piece) :
    ofPieces (literal.map .literal ++ ps) = (ofPieces ps).prepend literal := by
  induction literal with
  | nil =>
      rw [List.map_nil, List.nil_append]
      generalize ofPieces ps = m
      obtain ⟨_ | ⟨part, parts⟩, last⟩ := m
      · rfl
      · rfl
  | cons c literal ih =>
      rw [List.map_cons, List.cons_append, ofPieces, ih, ← prepend_append]
      rfl

/-- Pieces determine the markup. -/
theorem ofPieces_toPieces (m : Markup) : ofPieces m.toPieces = m := by
  obtain ⟨parts, last⟩ := m
  induction parts with
  | nil =>
      have hlast := ofPieces_append last []
      rw [List.append_nil] at hlast
      rw [toPieces, List.flatMap_nil, List.nil_append, hlast, ofPieces, prepend, List.append_nil]
  | cons part parts ih =>
      rw [toPieces_cons, ofPieces_append, ofPieces, ih, prepend, List.append_nil]

/-- **Every text is leftmost markup in exactly one way**: as the pieces that
    the scanner finds. -/
theorem leftmost_iff {cs : List Char} {m : Markup} :
    m.filled Token.text = cs ∧ m.Leftmost ↔ m = ofPieces (pieces cs) := by
  constructor
  · rintro ⟨rfl, hleftmost⟩
    rw [hleftmost.pieces_text, ofPieces_toPieces]
  · rintro rfl
    exact ofPieces_pieces cs

instance : DecidableEq Markup := fun a b =>
  decidable_of_iff (a.parts = b.parts ∧ a.last = b.last) (by
    cases a
    cases b
    rw [Markup.mk.injEq])

instance (m : Markup) : Decidable m.Leftmost :=
  decidable_of_iff (m = ofPieces (pieces (m.filled Token.text)))
    (leftmost_iff.symm.trans (and_iff_right rfl))

end PageLoom.Content.Markup

namespace PageLoom

open Content

namespace FilterRegistry

/-- **A value through filters**, the leftmost first: each filter takes what the
    one before it gave, and a name without a filter is passed over. -/
inductive Filtered (filters : FilterRegistry) (context : Context) :
    Json → List FilterCall → Json → Prop
  | done {value : Json} : Filtered filters context value [] value
  | filter {value result : Json} {call : FilterCall} {calls : List FilterCall} {f : Filter} :
      Assoc.get? call.name filters.entries = some f →
      Filtered filters context (f value call.arg context) calls result →
      Filtered filters context value (call :: calls) result
  | unknown {value result : Json} {call : FilterCall} {calls : List FilterCall} :
      Assoc.get? call.name filters.entries = none →
      Filtered filters context value calls result →
      Filtered filters context value (call :: calls) result

/-- **The filters of a token** give one value: that of a fold from the left. -/
theorem filtered_iff {filters : FilterRegistry} {context : Context} {value result : Json}
    {calls : List FilterCall} :
    filters.Filtered context value calls result ↔
      result = calls.foldl (fun value call => filters.apply call.name value call.arg context)
        value := by
  constructor
  · intro h
    induction h with
    | done => rfl
    | filter hget _ ih =>
        rw [List.foldl_cons, apply, hget]
        exact ih
    | unknown hget _ ih =>
        rw [List.foldl_cons, apply, hget]
        exact ih
  · rintro rfl
    induction calls generalizing value with
    | nil => exact .done
    | cons call calls ih =>
        rw [List.foldl_cons, apply]
        cases hget : Assoc.get? call.name filters.entries with
        | some f => exact .filter hget ih
        | none => exact .unknown hget ih

end FilterRegistry

namespace Engine

/-- **Substitution replaces the tokens of the one leftmost markup** that a text
    is.  The field of a token has a value, which goes through the filters of the
    token from left to right; its text is handed to the guard.  All else is
    copied. -/
theorem fillWith_unique_leftmost (engine : Engine) (guard : String → String) (context : Context)
    (text : String) :
    ∃ (m : Markup) (value : Token → Json),
      (∀ m' : Markup, m'.text = text ∧ m'.Leftmost ↔ m' = m) ∧
      (∀ t result, engine.filters.Filtered context (engine.fields.resolve t.field context)
        t.filters result ↔ result = value t) ∧
      engine.fillWith guard context text =
        String.ofList (m.filled fun t => (guard (value t).display).toList) := by
  obtain ⟨htext, hleftmost⟩ := Markup.ofPieces_pieces text.toList
  refine ⟨.ofPieces (pieces text.toList), fun t => t.filters.foldl
    (fun value call => engine.filters.apply call.name value call.arg context)
    (engine.fields.resolve t.field context), ?_, ?_, ?_⟩
  · intro m'
    rw [← Markup.leftmost_iff, Markup.text, ← String.toList_inj, String.toList_ofList]
  · intro t result
    exact FilterRegistry.filtered_iff
  · have hfill := engine.fillWith_leftmost guard context hleftmost
    rw [Markup.text, htext, String.ofList_toList] at hfill
    exact hfill

/-- Of three braces the first is a literal, before the token and after it.  The
    empty name is put in capitals before the default takes its place, so the
    default stays as it is; a filter that nobody knows does nothing. -/
theorem fillWith_unique_leftmost_filters :
    let context : Context := { request := { now := default } }
    Engine.fillWith {} (fun text => "<" ++ text ++ ">") context
        "\x7b\x7b\x7bsite_name|upper|shout|default:none\x7d\x7d\x7d" =
      "\x7b<none>\x7d" := by
  intro context
  let t : Token := ⟨"site_name", [⟨"upper", none⟩, ⟨"shout", none⟩, ⟨"default", some "none"⟩]⟩
  obtain ⟨m, value, hmarkup, hvalue, hfill⟩ := fillWith_unique_leftmost {}
    (fun text => "<" ++ text ++ ">") context
    "\x7b\x7b\x7bsite_name|upper|shout|default:none\x7d\x7d\x7d"
  obtain rfl := (hmarkup ⟨[(['\x7b'], t)], ['\x7d']⟩).mp (by decide +kernel)
  have hsite : FieldRegistry.builtIn.resolve "site_name" context = .string "" := rfl
  have hupper : Assoc.get? "upper" FilterRegistry.builtIn.entries = some (.ofText Text.upper) := rfl
  have hshout : Assoc.get? "shout" FilterRegistry.builtIn.entries = none := rfl
  have hdefault : Assoc.get? "default" FilterRegistry.builtIn.entries = some .default := rfl
  have hcapitals : Filter.ofText Text.upper (.string "") none context = .string "" := rfl
  have hnone : Filter.default (.string "") (some "none") context = .string "none" := rfl
  have hfiltered : FilterRegistry.builtIn.Filtered context
      (FieldRegistry.builtIn.resolve "site_name" context) t.filters (.string "none") := by
    rw [hsite]
    refine .filter hupper ?_
    show FilterRegistry.Filtered _ _ (Filter.ofText Text.upper (.string "") none context) _ _
    rw [hcapitals]
    refine .unknown hshout (.filter hdefault ?_)
    show FilterRegistry.Filtered _ _ (Filter.default (.string "") (some "none") context) _ _
    rw [hnone]
    exact .done
  rw [hfill, Markup.filled_cons, ← (hvalue t _).mp hfiltered]
  rfl

end Engine

end PageLoom
