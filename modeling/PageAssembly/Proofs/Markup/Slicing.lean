import PageAssembly.Proofs.Markup.History

/-!
# Tags are slices of the source

A tag is printed as it is written.  An end tag is found again through the place where the reader
last tried to read one, which is kept as an offset into what had arrived at that time.

## Main definitions

* `Markup.Slice` — a tag and the place where it starts in the source
* `History.slices` — the tags of a history with their places
* `Markup.lookedUp?` — what is found from a remembered start on
* `Markup.lookups` — what is found for the end tags, turn by turn

## Main statements

* `Turn.lookedUp?_remembered` — an end tag is found from the start that its turn remembers
* `Markup.tags_sliced` — the tags of every input are separate slices of it in its order, and every
  end tag is found again

### Stale starts

A start stays remembered when nothing is reported for it, so it may point into a buffer that has
been cut since.  It does no harm: a turn that reports an end tag remembers its own start before it
looks.
-/

namespace PageAssembly.Markup

/-- Whether a token is a tag. -/
def Token.isTag (token : Token) : Bool :=
  token.kind == .startTag || token.kind == .selfClosing || token.kind == .endTag

/-- The tag that an event reports. -/
def Event.tag? : Event → Option Token
  | .text _ => none
  | .mark token => if token.isTag then some token else none

/-- The tags that some events report. -/
def tagsOf (events : List Event) : List Token := events.filterMap Event.tag?

/-- **The spelling of a tag.** -/
structure Token.IsSpelled (token : Token) : Prop where
  /-- It starts with `<`. -/
  opened : ∃ inner, token.text = '<' :: inner
  /-- An end tag starts with `</` and runs to the first `>`. -/
  closed : token.kind = .endTag → ∃ inner, '>' ∉ inner ∧ token.text = '<' :: '/' :: inner ++ ['>']

/-- **A tag and the place where it starts** in the source. -/
structure Slice where
  /-- How many characters of the source stand in front of it. -/
  start : Nat
  /-- The tag. -/
  token : Token
  deriving DecidableEq, Repr

namespace Slice

/-- Where a slice stops. -/
def stop (slice : Slice) : Nat := slice.start + slice.token.text.length

/-- The tag is what stands in the source at its place. -/
def StandsIn (source : Text) (slice : Slice) : Prop :=
  slice.token.text <+: source.drop slice.start

/-- A slice starts before another one and does not reach into it. -/
def Before (first later : Slice) : Prop := first.start < later.start ∧ first.stop ≤ later.start

end Slice

/-- The tags of some portions, each at the end of what is taken with it; `position` characters of
the source stand in front of them. -/
def slicesFrom (position : Nat) : List Portion → List Slice
  | [] => []
  | portion :: portions =>
    (tagsOf portion.events).map
        (fun token => ⟨position + (portion.source.length - token.text.length), token⟩) ++
      slicesFrom (position + portion.source.length) portions

/-- The tags of a history with their places. -/
def History.slices (history : History) : List Slice := slicesFrom 0 history.portions

/-! ## Portions -/

/-- At most one tag is reported for a portion, and it ends the portion. -/
def Portion.Tagged (portion : Portion) : Prop :=
  tagsOf portion.events = [] ∨
    ∃ front token, tagsOf portion.events = [token] ∧ portion.source = front ++ token.text ∧
      token.IsSpelled

theorem tagsOf_append (first later : List Event) :
    tagsOf (first ++ later) = tagsOf first ++ tagsOf later :=
  List.filterMap_append

theorem tagsOf_mark (token : Token) :
    tagsOf [.mark token] = if token.isTag then [token] else [] := by
  cases tag : token.isTag <;> simp [tagsOf, Event.tag?, tag]

theorem tagsOf_map_text (pieces : List Text) : tagsOf (pieces.map .text) = [] := by
  rw [tagsOf, List.filterMap_map]
  exact List.filterMap_eq_nil_iff.mpr fun _ _ => rfl

theorem Construct.isTag_token (c : Construct) : c.token.isTag = false := by
  rcases c.isConstruct_token with kind | kind <;> simp [Token.isTag, kind]

theorem Report.tagged {raw : Option RawElement} {s source : Text} {events : List Event}
    (report : Report raw s source events) : Portion.Tagged ⟨source, events⟩ := by
  cases report with
  | @text source pieces _ => exact Or.inl (tagsOf_map_text pieces)
  | construct c _ => exact Or.inl (by rw [tagsOf_mark, c.isTag_token]; rfl)
  | @startTag token inner kind opened =>
      have tag : token.isTag = true := by rcases kind with kind | kind <;> simp [Token.isTag, kind]
      refine Or.inr ⟨[], token, by rw [tagsOf_mark, if_pos tag], rfl, ⟨inner, opened⟩, ?_⟩
      intro same
      rcases kind with kind | kind <;> cases kind.symm.trans same
  | @endTag before inner name pieces _ first _ =>
      refine Or.inr ⟨before, endTagToken ('<' :: '/' :: inner ++ ['>']) name, ?_, rfl,
        ⟨_, rfl⟩, fun _ => ⟨inner, first, rfl⟩⟩
      rw [tagsOf_append, tagsOf_map_text, tagsOf_mark]
      rfl

theorem map_token_slicesFrom (position : Nat) (portions : List Portion) :
    (slicesFrom position portions).map Slice.token = tagsOf (portions.flatMap Portion.events) := by
  induction portions generalizing position with
  | nil => rfl
  | cons portion portions ih =>
      rw [slicesFrom, List.map_append, ih, List.map_map, List.flatMap_cons, tagsOf_append]
      exact congrArg (· ++ _) (List.map_id _)

/-- The slices stand behind the given position. -/
theorem le_start_of_mem_slicesFrom {position : Nat} {portions : List Portion} {slice : Slice}
    (member : slice ∈ slicesFrom position portions) : position ≤ slice.start := by
  induction portions generalizing position with
  | nil => cases member
  | cons portion portions ih =>
      rw [slicesFrom] at member
      rcases List.mem_append.mp member with here | later
      · obtain ⟨token, -, rfl⟩ := List.mem_map.mp here
        exact Nat.le_add_right _ _
      · exact (Nat.le_add_right _ _).trans (ih later)

/-- **The slices stand in the source.** -/
theorem standsIn_of_mem_slicesFrom {portions : List Portion}
    (tagged : ∀ portion ∈ portions, portion.Tagged) {slice : Slice} {front : Text}
    (member : slice ∈ slicesFrom front.length portions) (back : Text) :
    slice.StandsIn (front ++ portions.flatMap Portion.source ++ back) ∧ slice.token.IsSpelled := by
  induction portions generalizing front with
  | nil => cases member
  | cons portion portions ih =>
      obtain ⟨here, later⟩ := List.forall_mem_cons.mp tagged
      rw [slicesFrom, ← List.length_append] at member
      rw [List.flatMap_cons, ← List.append_assoc front]
      rcases List.mem_append.mp member with first | found
      · rcases here with none | ⟨gap, token, one, split, spelled⟩
        · rw [none] at first
          cases first
        · rw [one] at first
          cases List.mem_singleton.mp first
          refine ⟨?_, spelled⟩
          have place : front.length + (portion.source.length - token.text.length) =
              (front ++ gap).length := by
            simp [split]
          have source : front ++ portion.source ++ portions.flatMap Portion.source ++ back =
              (front ++ gap) ++ (token.text ++ (portions.flatMap Portion.source ++ back)) := by
            simp [split]
          simp only [Slice.StandsIn, place, source, List.drop_left]
          exact List.prefix_append _ _
      · exact ih later found

/-- **The slices stand one after the other.** -/
theorem pairwise_slicesFrom {portions : List Portion}
    (tagged : ∀ portion ∈ portions, portion.Tagged) (position : Nat) :
    (slicesFrom position portions).Pairwise Slice.Before := by
  induction portions generalizing position with
  | nil => exact .nil
  | cons portion portions ih =>
      obtain ⟨here, later⟩ := List.forall_mem_cons.mp tagged
      have onward := ih later (position + portion.source.length)
      rw [slicesFrom]
      rcases here with none | ⟨front, token, one, split, spelled⟩
      · rw [none]
        exact onward
      · rw [one]
        refine List.pairwise_cons.mpr ⟨fun slice found => ?_, onward⟩
        have behind := le_start_of_mem_slicesFrom found
        obtain ⟨inner, opened⟩ := spelled.opened
        have filled : 0 < token.text.length := by simp [opened]
        simp only [split, List.length_append] at behind
        simp only [Slice.Before, Slice.stop, split, List.length_append]
        omega

/-! ## End tags -/

/-- **What is found from a remembered start on**: the text from the `</` that stands there to the
first `>`. -/
def lookedUp? (buffer : Text) (start : Option Nat) : Option Text :=
  start.bind fun start =>
    if Text.startsWith (buffer.drop start) ['<', '/'] then
      (Text.through? '>' (buffer.drop start)).map Prod.fst
    else none

/-- What is found for the end tags among some events, and the start that is remembered behind them.
Every end tag forgets it. -/
def lookupsIn (buffer : Text) (start : Option Nat) : List Event → List (Option Text) × Option Nat
  | [] => ([], start)
  | .text _ :: events => lookupsIn buffer start events
  | .mark token :: events =>
    if token.kind = .endTag then
      (lookedUp? buffer start :: (lookupsIn buffer none events).1, (lookupsIn buffer none events).2)
    else lookupsIn buffer start events

/-- The start that is remembered when a turn reports: where the turn tries to read an end tag, or
else what was remembered before it. -/
def Turn.remembered (start : Option Nat) (turn : Turn) : Option Nat :=
  match endTagStart? turn.raw turn.rest with
  | some place => some (turn.offset + place)
  | none => start

/-- **What is found for the end tags**, turn by turn, when a start is remembered from before. -/
def lookups (start : Option Nat) : List Turn → List (Option Text)
  | [] => []
  | turn :: turns =>
    (lookupsIn turn.buffer (turn.remembered start) turn.portion.events).1 ++
      lookups (lookupsIn turn.buffer (turn.remembered start) turn.portion.events).2 turns

/-- The texts of the end tags among some tokens. -/
def endTagTexts (tokens : List Token) : List Text :=
  (tokens.filter fun token => token.kind == .endTag).map Token.text

theorem lookedUp?_some {buffer inner behind : Text} {start : Nat} (first : '>' ∉ inner)
    (stands : buffer.drop start = '<' :: '/' :: inner ++ '>' :: behind) :
    lookedUp? buffer (some start) = some ('<' :: '/' :: inner ++ ['>']) := by
  have absent : '>' ∉ '<' :: '/' :: inner := by simp [first]
  have opened : Text.startsWith ('<' :: '/' :: inner ++ '>' :: behind) ['<', '/'] = true := rfl
  have cut : Text.cut? ['>'] ('>' :: behind) = some ([], behind) :=
    Text.cut?_mark_append '>' [] behind
  rw [lookedUp?, Option.bind_some, stands, if_pos opened, Text.through?,
    Text.cut?_append_of_notMem absent, cut]
  simp

theorem lookupsIn_map_text (buffer : Text) (start : Option Nat) (pieces : List Text)
    (events : List Event) :
    lookupsIn buffer start (pieces.map .text ++ events) = lookupsIn buffer start events := by
  induction pieces with
  | nil => rfl
  | cons piece pieces ih => exact ih

theorem endTagTexts_append (first later : List Token) :
    endTagTexts (first ++ later) = endTagTexts first ++ endTagTexts later := by
  rw [endTagTexts, List.filter_append, List.map_append]
  rfl

/-- **An end tag is found from the start that its turn remembers**, whatever was remembered
before. -/
theorem Turn.lookupsIn_remembered (turn : Turn) (start : Option Nat) :
    (lookupsIn turn.buffer (turn.remembered start) turn.portion.events).1 =
      (endTagTexts (tagsOf turn.portion.events)).map some := by
  obtain ⟨split, report⟩ := turn.reported
  generalize turn.portion.source = source at split report
  generalize turn.portion.events = events at report
  cases report with
  | @text source pieces _ =>
      have none := lookupsIn_map_text turn.buffer (turn.remembered start) pieces []
      rw [List.append_nil] at none
      rw [none, tagsOf_map_text]
      rfl
  | construct c _ =>
      have kind : c.token.kind ≠ .endTag := by
        rcases c.isConstruct_token with kind | kind <;> simp [kind]
      rw [tagsOf_mark, c.isTag_token, lookupsIn, if_neg kind]
      rfl
  | @startTag token inner kind _ =>
      have other : token.kind ≠ .endTag := by rcases kind with kind | kind <;> simp [kind]
      have tag : token.isTag = true := by rcases kind with kind | kind <;> simp [Token.isTag, kind]
      rw [tagsOf_mark, if_pos tag, lookupsIn, if_neg other, lookupsIn]
      simp [endTagTexts, other]
  | @endTag before inner name pieces place first _ =>
      have stands : turn.buffer.drop (turn.offset + before.length) =
          '<' :: '/' :: inner ++ '>' :: turn.move.rest := by
        rw [← List.drop_drop, ← Turn.rest, split]
        simp
      rw [lookupsIn_map_text, remembered, place, tagsOf_append, tagsOf_map_text]
      simp only [lookupsIn, endTagToken, if_pos, lookedUp?_some first stands]
      rfl

/-- The end tags of a history are found, whatever was remembered before it. -/
theorem lookups_eq_endTagTexts (start : Option Nat) (turns : List Turn) :
    lookups start turns =
      (endTagTexts (tagsOf ((turns.map Turn.portion).flatMap Portion.events))).map some := by
  induction turns generalizing start with
  | nil => rfl
  | cons turn turns ih =>
      rw [lookups, turn.lookupsIn_remembered, ih, List.map_cons, List.flatMap_cons,
        tagsOf_append, endTagTexts_append, List.map_append]

/-! ## Inputs -/

theorem filter_isTag_flush (buffered : Text) : (flush buffered).filter Token.isTag = [] := by
  rw [flush]
  split <;> rfl

/-- The tags among the tokens are those that the events report. -/
theorem filter_isTag_collect (buffered : Text) (events : List Event) :
    (collect buffered events).1.filter Token.isTag = tagsOf events := by
  induction events generalizing buffered with
  | nil => rfl
  | cons event events ih =>
      cases event with
      | text piece => exact ih (piece.reverse ++ buffered)
      | mark token =>
          have split : tagsOf (.mark token :: events) = tagsOf [.mark token] ++ tagsOf events :=
            tagsOf_append [.mark token] events
          rw [collect_mark, split, tagsOf_mark, List.filter_append, filter_isTag_flush,
            List.filter_cons, ih]
          cases token.isTag <;> rfl

theorem filter_isTag_tokenize (chunks : List Text) :
    (tokenize chunks).tokens.filter Token.isTag = tagsOf (history chunks).events := by
  rw [tokens_tokenize, finished, List.filter_append, filter_isTag_collect]
  split
  · rw [filter_isTag_flush, List.append_nil]
  · exact List.append_nil _

theorem endTagTexts_filter_isTag (tokens : List Token) :
    endTagTexts (tokens.filter Token.isTag) = endTagTexts tokens := by
  rw [endTagTexts, List.filter_filter]
  congr 2
  funext token
  simp only [Token.isTag]
  cases token.kind <;> rfl

theorem tagged_of_mem_portions {chunks : List Text} {portion : Portion}
    (member : portion ∈ (history chunks).portions) : portion.Tagged := by
  obtain ⟨raw, s, report⟩ := exists_report_of_mem_portions member
  exact report.tagged

/-- No tag is reported for what is left at the end of the input. -/
theorem tagsOf_events (chunks : List Text) :
    tagsOf (history chunks).events =
      tagsOf (((history chunks).turns.map Turn.portion).flatMap Portion.events) := by
  obtain ⟨q, left⟩ := exists_left_historyFrom { rest := [] } chunks
  rw [History.events, History.portions, List.flatMap_append, tagsOf_append,
    List.flatMap_singleton, history, left, Place.left]
  split
  · exact List.append_nil _
  · rw [Place.remainder]
    split <;> exact List.append_nil _

/-- **Tags are printed from the source.**  The tags among the tokens of an input, start tags and end
tags of all elements, are the slices of its history: they stand in the source at increasing places,
none reaches into another, each starts with `<`, and an end tag starts with `</` and runs to the
first `>`.  All end tags are found again from the remembered start, so none is rebuilt from its
name; the second statement about them also covers the turns in a chunk that stops the reader. -/
theorem tags_sliced (chunks : List Text) :
    (history chunks).slices.map Slice.token = (tokenize chunks).tokens.filter Token.isTag ∧
      (history chunks).slices.Pairwise Slice.Before ∧
      (∀ slice ∈ (history chunks).slices,
        slice.StandsIn chunks.flatten ∧ slice.token.IsSpelled) ∧
      (∀ start, lookups start (history chunks).turns =
        (endTagTexts (tokenize chunks).tokens).map some) ∧
      ∀ (turn : Turn) (start : Option Nat),
        (lookupsIn turn.buffer (turn.remembered start) turn.portion.events).1 =
          (endTagTexts (tagsOf turn.portion.events)).map some := by
  have tagged : ∀ portion ∈ (history chunks).portions, portion.Tagged :=
    fun _ member => tagged_of_mem_portions member
  refine ⟨?_, pairwise_slicesFrom tagged 0, fun slice member => ?_, fun start => ?_,
    Turn.lookupsIn_remembered⟩
  · rw [filter_isTag_tokenize]
    exact map_token_slicesFrom 0 _
  · obtain ⟨unread, split, -⟩ := exists_source_history chunks
    rw [split]
    exact @standsIn_of_mem_slicesFrom _ tagged slice [] member unread
  · rw [lookups_eq_endTagTexts, ← tagsOf_events, ← filter_isTag_tokenize, endTagTexts_filter_isTag]

end PageAssembly.Markup
