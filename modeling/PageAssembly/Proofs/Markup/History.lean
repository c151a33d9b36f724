import PageAssembly.Proofs.Markup.Portion

/-!
# The turns of the reader

The reader takes one turn after the other, also over an input that it cannot read to its end.  Each
turn is kept with the buffer that it was taken over.

## Main definitions

* `Markup.Turn` — a move with the buffer and the place in it where it was made
* `Place.turns` — the turns of one pass
* `Markup.History` — the turns of chunked input, and what is left at its end
* `Markup.finished` — the tokens that are known when the reader has stopped or come to the end

## Main statements

* `Markup.tokens_tokenize` — the tokens of every input are collected from the events of its history
* `Markup.exists_source_history` — a history takes up the input from its start, and all of it when
  nothing stops the reader

### Inputs that stop the reader

The tokens of a chunk become known together.  So the history of an input ends in front of the chunk
that stops the reader, and text that was waiting for a token behind it never becomes one.
-/

namespace PageAssembly.Markup

/-- **One turn of the reader.** -/
structure Turn where
  /-- What had arrived when the pass began and was not used up by earlier passes. -/
  buffer : Text
  /-- The place in the buffer. -/
  offset : Nat
  /-- The raw element that was open. -/
  raw : Option RawElement
  /-- Whether the input was at its end. -/
  closing : Bool
  /-- The move that was made. -/
  move : Move
  /-- It is the move at this place. -/
  moved : Markup.move closing raw (buffer.drop offset) = .ok move

namespace Turn

/-- What was left of the buffer. -/
def rest (turn : Turn) : Text := turn.buffer.drop turn.offset

/-- What the turn takes, and what it reports for it. -/
def portion (turn : Turn) : Portion := turn.move.portion turn.rest

/-- What a turn reports is a report for what it takes. -/
theorem reported (turn : Turn) :
    turn.rest = turn.portion.source ++ turn.move.rest ∧
      Report turn.raw turn.rest turn.portion.source turn.portion.events := by
  obtain ⟨source, split, report⟩ := move_report turn.moved
  rw [Turn.portion, rest, Move.source_portion split]
  exact ⟨split, report⟩

end Turn

/-! ## Passes -/

/-- The work behind `Place.turns`: the turns from a place of the buffer on, inside the given raw
element. -/
def turnsFrom (closing : Bool) (buffer : Text) (offset : Nat) (raw : Option RawElement) :
    Except Malformed (List Turn × Place) :=
  if buffer.drop offset = [] then .ok ([], ⟨raw, []⟩)
  else
    match moved : move closing raw (buffer.drop offset) with
    | .error e => .error e
    | .ok (.halt _ rest) => .ok ([⟨buffer, offset, raw, closing, _, moved⟩], ⟨raw, rest⟩)
    | .ok (.advance _ rest raw') =>
      (turnsFrom closing buffer (buffer.length - rest.length) raw').map fun read =>
        (⟨buffer, offset, raw, closing, _, moved⟩ :: read.1, read.2)
termination_by (buffer.drop offset).length
decreasing_by
  have shorter := move_length_lt moved
  simp only [List.length_drop] at shorter ⊢
  omega

/-- A move leaves what stands behind another place of the buffer. -/
theorem drop_of_move {closing : Bool} {buffer rest : Text} {offset : Nat}
    {raw raw' : Option RawElement} {events : List Event}
    (moved : move closing raw (buffer.drop offset) = .ok (.advance events rest raw')) :
    buffer.drop (buffer.length - rest.length) = rest := by
  have left : rest <:+ buffer := (move_rest_suffix moved).trans (List.drop_suffix offset buffer)
  exact (List.suffix_iff_eq_drop.mp left).symm

/-- The portions of a pass are those of its turns. -/
theorem portions_eq_turnsFrom (closing : Bool) (buffer : Text) (offset : Nat)
    (raw : Option RawElement) :
    (⟨raw, buffer.drop offset⟩ : Place).portions closing =
      (turnsFrom closing buffer offset raw).map fun read =>
        (read.1.map Turn.portion, read.2) := by
  fun_induction turnsFrom closing buffer offset raw with
  | case1 offset raw empty =>
      rw [empty, Place.portions, if_pos rfl]
      rfl
  | case2 offset raw filled e moved =>
      rw [Place.portions, if_neg filled]
      split <;> simp_all [Except.map]
  | case3 offset raw filled events rest moved =>
      rw [Place.portions, if_neg filled]
      split <;> simp_all [Except.map, Turn.portion, Turn.rest]
  | case4 offset raw filled events rest raw' moved ih =>
      rw [Place.portions, if_neg filled]
      rw [drop_of_move moved] at ih
      split
      · next failed => cases moved.symm.trans failed
      · next halted => cases moved.symm.trans halted
      · next advanced =>
          cases moved.symm.trans advanced
          rw [ih]
          cases turnsFrom closing buffer (buffer.length - rest.length) raw' with
          | error e => rfl
          | ok read => rfl

namespace Place

/-- The turns of one pass, and the place that it leads to. -/
def turns (closing : Bool) (p : Place) : Except Malformed (List Turn × Place) :=
  turnsFrom closing p.rest 0 p.raw

theorem portions_eq_turns (closing : Bool) (p : Place) :
    p.portions closing =
      (p.turns closing).map fun read => (read.1.map Turn.portion, read.2) :=
  portions_eq_turnsFrom closing p.rest 0 p.raw

/-- What is left behind the last pass, if anything is. -/
def left (p : Place) : Portion := if p.rest = [] then ⟨[], []⟩ else p.remainder

/-- What is reported for what is left is the leftover of the pass. -/
theorem events_left (p : Place) (events : List Event) :
    p.left.events = Pass.leftover ⟨events, p.raw, p.rest⟩ := by
  obtain ⟨raw, rest⟩ := p
  rw [left, remainder, Pass.leftover]
  cases rest <;> cases raw <;> rfl

theorem source_left (p : Place) : p.left.source = p.rest := by
  rw [left]
  split
  · next empty => exact empty.symm
  · rfl

/-- What is left is reported as text, or not at all. -/
theorem report_left (p : Place) (raw : Option RawElement) (s : Text) :
    Report raw s p.left.source p.left.events := by
  have none (source : Text) : Report raw s source [] :=
    @Report.text raw s source [] List.not_mem_nil
  rw [left]
  split
  · exact none []
  · next filled =>
      rw [remainder]
      split
      · have pieces : [] ∉ [p.rest] := fun member => filled (List.mem_singleton.mp member).symm
        exact @Report.text raw s p.rest [p.rest] pieces
      · exact none p.rest

end Place

/-! ## Chunks -/

/-- **The history of chunked input.** -/
structure History where
  /-- The turns, up to the chunk that stops the reader. -/
  turns : List Turn := []
  /-- What is left behind them at the end of the input. -/
  left : Portion := ⟨[], []⟩

namespace History

/-- What is taken turn by turn, and what is left. -/
def portions (history : History) : List Portion :=
  history.turns.map Turn.portion ++ [history.left]

/-- The events of a history. -/
def events (history : History) : List Event := history.portions.flatMap Portion.events

/-- The source of a history. -/
def source (history : History) : Text := history.portions.flatMap Portion.source

/-- The history with turns before it. -/
def after (turns : List Turn) (history : History) : History :=
  { history with turns := turns ++ history.turns }

theorem portions_after (turns : List Turn) (history : History) :
    (history.after turns).portions = turns.map Turn.portion ++ history.portions := by
  simp [after, portions]

end History

/-- The history of some chunks behind the text at a place, up to the end of the input. -/
def historyFrom (p : Place) : List Text → History
  | [] =>
    match p.turns true with
    | .error _ => {}
    | .ok (turns, q) => { turns, left := q.left }
  | chunk :: chunks =>
    match (p.extend chunk).turns false with
    | .error _ => {}
    | .ok (turns, q) => (historyFrom q chunks).after turns

/-- **The history of chunked input**: the turns of the reader, up to the chunk that stops it. -/
def history (chunks : List Text) : History := historyFrom { rest := [] } chunks

theorem exists_left_historyFrom (p : Place) (chunks : List Text) :
    ∃ q : Place, (historyFrom p chunks).left = q.left := by
  induction chunks generalizing p with
  | nil =>
      rw [historyFrom]
      cases p.turns true with
      | error e => exact ⟨{ rest := [] }, rfl⟩
      | ok read => exact ⟨read.2, rfl⟩
  | cons chunk chunks ih =>
      rw [historyFrom]
      cases (p.extend chunk).turns false with
      | error e => exact ⟨{ rest := [] }, rfl⟩
      | ok read => exact ih read.2

/-- **Every portion of a history is a report for what is taken.** -/
theorem exists_report_of_mem_portions {chunks : List Text} {portion : Portion}
    (member : portion ∈ (history chunks).portions) :
    ∃ raw s, Report raw s portion.source portion.events := by
  rcases List.mem_append.mp member with member | member
  · obtain ⟨turn, -, rfl⟩ := List.mem_map.mp member
    exact ⟨turn.raw, turn.rest, turn.reported.2⟩
  · obtain ⟨q, left⟩ := exists_left_historyFrom { rest := [] } chunks
    rw [List.mem_singleton.mp member, history, left]
    exact ⟨none, [], q.report_left none []⟩

/-- **The tokens that are known** when the reader has stopped or come to the end of the input, from
what has been collected. -/
def finished (failure : Option Malformed) (collected : List Token × Text) : List Token :=
  collected.1 ++ if failure = none then flush collected.2 else []

/-- The events of a pass are those of its turns. -/
theorem pass_eq_turns (closing : Bool) (p : Place) :
    Markup.pass closing p.raw p.rest = (p.turns closing).map fun read =>
      ⟨(read.1.map Turn.portion).flatMap Portion.events, read.2.raw, read.2.rest⟩ := by
  rw [Place.events_portions, Place.portions_eq_turns]
  cases p.turns closing <;> rfl

theorem tokens_tokenizeFrom (done : List (List Token)) (t : Tokenizer) (chunks : List Text) :
    (tokenizeFrom true done t chunks).tokens =
      done.reverse.flatten ++ finished (tokenizeFrom true done t chunks).failure
        (collect t.buffered (historyFrom ⟨t.reader.raw, t.reader.pending⟩ chunks).events) := by
  induction chunks generalizing done t with
  | nil =>
      rw [tokenizeFrom, historyFrom, Tokenizer.close, Reader.close]
      have pass := pass_eq_turns true ⟨t.reader.raw, t.reader.pending⟩
      simp only at pass
      rw [pass]
      cases Place.turns true ⟨t.reader.raw, t.reader.pending⟩ with
      | error e => simp [Except.map, finished, History.events, History.portions]
      | ok read =>
          obtain ⟨turns, q⟩ := read
          have left := q.events_left ((turns.map Turn.portion).flatMap Portion.events)
          simp [Except.map, finished, History.events, History.portions, ← left]
  | cons chunk chunks ih =>
      rw [tokenizeFrom, historyFrom, Tokenizer.feed, Reader.feed]
      have pass := pass_eq_turns false (⟨t.reader.raw, t.reader.pending ++ chunk⟩ : Place)
      simp only at pass
      rw [pass, Place.extend_mk]
      cases Place.turns false ⟨t.reader.raw, t.reader.pending ++ chunk⟩ with
      | error e => simp [Except.map, finished, History.events, History.portions]
      | ok read =>
          obtain ⟨turns, q⟩ := read
          simp only [Except.map]
          rw [ih]
          simp only [History.events, History.portions_after, List.flatMap_append, collect_append,
            finished, List.reverse_cons, List.flatten_append, List.flatten_singleton,
            List.append_assoc]

/-- **The tokens of every input are collected from the events of its history.** -/
theorem tokens_tokenize (chunks : List Text) :
    (tokenize chunks).tokens =
      finished (tokenize chunks).failure (collect [] (history chunks).events) :=
  tokens_tokenizeFrom [] {} chunks

/-- What the turns of a pass take and what is left behind them make up what there was. -/
theorem source_turns {closing : Bool} {p q : Place} {found : List Turn}
    (h : p.turns closing = .ok (found, q)) :
    (found.map Turn.portion).flatMap Portion.source ++ q.rest = p.rest := by
  have portions := p.portions_eq_turns closing
  rw [h] at portions
  exact Place.source_portions portions

theorem exists_source_historyFrom (p : Place) (chunks : List Text) :
    ∃ unread, p.rest ++ chunks.flatten = (historyFrom p chunks).source ++ unread ∧
      ((∃ found, portionsFrom p chunks = .ok found) → unread = []) := by
  induction chunks generalizing p with
  | nil =>
      rw [historyFrom, portionsFrom, p.portions_eq_turns true]
      cases passed : p.turns true with
      | error e => exact ⟨p.rest, by simp [History.source, History.portions], by rintro ⟨_, ⟨⟩⟩⟩
      | ok read =>
          refine ⟨[], ?_, fun _ => rfl⟩
          simp [History.source, History.portions, Place.source_left, ← source_turns passed]
  | cons chunk chunks ih =>
      rw [historyFrom, portionsFrom, (p.extend chunk).portions_eq_turns false, List.flatten_cons,
        ← List.append_assoc]
      cases passed : (p.extend chunk).turns false with
      | error e =>
          exact ⟨p.rest ++ chunk ++ chunks.flatten, by simp [History.source, History.portions],
            by rintro ⟨_, ⟨⟩⟩⟩
      | ok read =>
          obtain ⟨turns, q⟩ := read
          obtain ⟨unread, split, whole⟩ := ih q
          have taken : (turns.map Turn.portion).flatMap Portion.source ++ q.rest =
              p.rest ++ chunk := source_turns passed
          refine ⟨unread, ?_, ?_⟩
          · rw [← taken, List.append_assoc, split]
            simp [History.source, History.portions_after]
          · rintro ⟨found, onward⟩
            obtain ⟨later, onward, -⟩ := exists_of_map_ok onward
            exact whole ⟨later, onward⟩

/-- **A history takes up the input from its start**, and all of it when nothing stops the reader. -/
theorem exists_source_history (chunks : List Text) :
    ∃ unread, chunks.flatten = (history chunks).source ++ unread ∧
      ((tokenize chunks).failure = none → unread = []) := by
  obtain ⟨unread, split, whole⟩ := exists_source_historyFrom { rest := [] } chunks
  exact ⟨unread, split, fun success => whole (exists_portions_of_tokenize success)⟩

end PageAssembly.Markup
