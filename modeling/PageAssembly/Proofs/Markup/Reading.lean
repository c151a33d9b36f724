import PageAssembly.Proofs.Markup.Place
import PageAssembly.Proofs.Markup.Report

/-!
# Readings and the tokens of chunked input

A reading is a path of places.  Readings from one place are parts of one another, so what two ways
to cut an input make of it differs only in where they stop.

## Main definitions

* `Markup.Reads` — a reading from one place to another, with what it spells
* `Markup.Behind` — a place behind a stray `&#` of a reading
* `Markup.readChunks`, `Markup.readAll` — chunked input in symbols
* `Markup.tokensFrom` — the tokens of some symbols

## Main statements

* `Place.reads_of_pass` — a pass is a reading, and ends where the reader waits or behind a stray
  `&#`
* `Reads.linear` — of two readings from one place, one goes on with the other
* `Reads.suffix` — a reading leaves a suffix of its text
* `Markup.tokenize_of_ok`, `Markup.tokenize_of_error` — the tokens are those of the symbols
-/

namespace PageAssembly.Markup

/-- **A reading** from one place to another, with the symbols that it spells. -/
inductive Reads : Place → List Symbol → Place → Prop
  /-- Nothing is read. -/
  | refl (p : Place) : Reads p [] p
  /-- A step comes first. -/
  | step {p q r : Place} {first later : List Symbol} :
    p.Steps first q → Reads q later r → Reads p (first ++ later) r

/-- **A place behind a stray `&#`** that is read from the start. -/
def Behind (start q : Place) : Prop :=
  ∃ symbols p, Reads start symbols p ∧ p.Stray q.rest ∧ q.raw = none

section Reads

variable {p q r : Place} {first later : List Symbol}

theorem Place.Steps.unique {q' : Place} {other : List Symbol} (step : p.Steps first q)
    (step' : p.Steps other q') : first = other ∧ q = q' := by
  rw [Place.Steps] at step step'
  rw [step] at step'
  cases step'
  exact ⟨rfl, rfl⟩

theorem Place.Steps.not_waits (step : p.Steps first q) : ¬ p.Waits := by
  intro waits
  rw [Place.Waits, step] at waits
  cases waits

theorem Place.Steps.not_stops (step : p.Steps first q) : ¬ p.Stops := by
  rintro ⟨e, stops⟩
  rw [step] at stops
  cases stops

namespace Reads

theorem trans (reads : Reads p first q) (more : Reads q later r) : Reads p (first ++ later) r := by
  induction reads with
  | refl p => exact more
  | step step _ ih =>
      rw [List.append_assoc]
      exact .step step (ih more)

theorem single (step : p.Steps first q) : Reads p first q := by
  simpa using Reads.step step (.refl q)

/-- A reading from a place where no step is taken stays there. -/
theorem eq_of_still (reads : Reads p first q) (still : ∀ symbols r, ¬ p.Steps symbols r) :
    first = [] ∧ p = q := by
  cases reads with
  | refl => exact ⟨rfl, rfl⟩
  | step step _ => exact absurd step (still _ _)

theorem eq_of_waits (reads : Reads p first q) (waits : p.Waits) : first = [] ∧ p = q :=
  reads.eq_of_still fun _ _ step => step.not_waits waits

/-- Behind a step the reading goes on with the same step. -/
theorem of_steps (reads : Reads p later r) (step : p.Steps first q)
    (still : ∀ symbols r', ¬ r.Steps symbols r') :
    ∃ rest, Reads q rest r ∧ later = first ++ rest := by
  cases reads with
  | refl => exact absurd step (still _ _)
  | step step' reads =>
      obtain ⟨rfl, rfl⟩ := step'.unique step
      exact ⟨_, reads, rfl⟩

/-- **Of two readings from one place, one goes on with the other.** -/
theorem linear (reads : Reads p first q) (reads' : Reads p later r) :
    (∃ rest, Reads q rest r ∧ later = first ++ rest) ∨
      ∃ rest, Reads r rest q ∧ first = later ++ rest := by
  induction reads generalizing later with
  | refl p => exact Or.inl ⟨later, reads', rfl⟩
  | step step reads ih =>
      cases reads' with
      | refl => exact Or.inr ⟨_, .step step reads, rfl⟩
      | step step' reads' =>
          obtain ⟨rfl, rfl⟩ := step.unique step'
          rcases ih reads' with ⟨rest, more, rfl⟩ | ⟨rest, more, rfl⟩
          · exact Or.inl ⟨rest, more, (List.append_assoc _ _ _).symm⟩
          · exact Or.inr ⟨rest, more, (List.append_assoc _ _ _).symm⟩

/-- A reading that ends without a step goes on with every other reading. -/
theorem linear_of_still (reads : Reads p first q) (reads' : Reads p later r)
    (still : ∀ symbols r', ¬ r.Steps symbols r') :
    ∃ rest, Reads q rest r ∧ later = first ++ rest := by
  rcases linear reads reads' with more | ⟨rest, more, rfl⟩
  · exact more
  · obtain ⟨rfl, rfl⟩ := more.eq_of_still still
    exact ⟨[], .refl _, by simp⟩

end Reads

theorem Place.Steps.suffix (step : p.Steps first q) : q.rest <:+ p.rest := by
  rcases step.cases with ⟨c, rest, rfl, -, -, rfl⟩ | ⟨body, ⟨rfl, -⟩, -, rfl⟩ |
    ⟨-, events, -, moved⟩
  · exact List.suffix_cons c rest
  · exact List.suffix_append ['&', '#'] body
  · exact move_rest_suffix moved

/-- **A reading leaves a suffix of its text.** -/
theorem Reads.suffix (reads : Reads p first q) : q.rest <:+ p.rest := by
  induction reads with
  | refl p => exact List.suffix_rfl
  | step step _ ih => exact ih.trans step.suffix

theorem Place.Waits.still (waits : r.Waits) (symbols : List Symbol) (q : Place) :
    ¬ r.Steps symbols q :=
  fun step => step.not_waits waits

theorem Place.Stops.still (stops : r.Stops) (symbols : List Symbol) (q : Place) :
    ¬ r.Steps symbols q :=
  fun step => step.not_stops stops

/-- A reading that is over takes no further step. -/
theorem Place.still_of_last (last : r.Waits ∨ r.Stops) (symbols : List Symbol) (q : Place) :
    ¬ r.Steps symbols q :=
  last.elim (fun waits => waits.still symbols q) fun stops => stops.still symbols q

theorem Behind.trans (reads : Reads p first q) (behind : Behind q r) : Behind p r := by
  obtain ⟨symbols, s, more, stray⟩ := behind
  exact ⟨first ++ symbols, s, reads.trans more, stray⟩

/-- **Where a pass ends.** -/
theorem Place.reads_of_pass (p : Place) :
    (∃ e, p.pass false = .error e ∧ ∃ symbols q, Reads p symbols q ∧ q.Stops) ∨
      ∃ symbols q, p.pass false = .ok (symbols, q) ∧ Reads p symbols q ∧
        (q.Waits ∨ Behind p q) := by
  induction p using Place.induction with
  | waits p waits => exact Or.inr ⟨[], p, pass_of_waits waits, .refl p, Or.inl waits⟩
  | stops p stops =>
      obtain ⟨e, stopped⟩ := stops
      exact Or.inl ⟨e, pass_of_stops stopped, [], p, .refl p, e, stopped⟩
  | stray p body stray _ =>
      refine Or.inr ⟨_, _, pass_of_stray stray, .single (next_of_stray stray), Or.inr ?_⟩
      exact ⟨[], p, .refl p, stray, rfl⟩
  | steps p q first step tidy ih =>
      rcases ih with ⟨e, failed, symbols, r, reads, stops⟩ | ⟨symbols, r, passed, reads, ended⟩
      · refine Or.inl ⟨e, ?_, _, r, .step step reads, stops⟩
        rw [pass_of_steps step tidy, failed]
        rfl
      · refine Or.inr ⟨first ++ symbols, r, ?_, .step step reads, ?_⟩
        · rw [pass_of_steps step tidy, passed]
          rfl
        · exact ended.imp id fun behind => behind.trans (.single step)

/-- **A reading goes on until it waits or stops.** -/
theorem Place.exists_last (p : Place) : ∃ symbols q, Reads p symbols q ∧ (q.Waits ∨ q.Stops) := by
  induction p using Place.induction with
  | waits p waits => exact ⟨[], p, .refl p, Or.inl waits⟩
  | stops p stops => exact ⟨[], p, .refl p, Or.inr stops⟩
  | stray p body stray ih =>
      obtain ⟨symbols, q, reads, last⟩ := ih
      exact ⟨_, q, .step (next_of_stray stray) reads, last⟩
  | steps p q first step tidy ih =>
      obtain ⟨symbols, r, reads, last⟩ := ih
      exact ⟨_, r, .step step reads, last⟩

end Reads

/-! ## Chunks -/

/-- The symbols of some chunks behind the text at a place, and the place that is reached. -/
def readChunks (p : Place) : List Text → Except Malformed (List Symbol × Place)
  | [] => .ok ([], p)
  | chunk :: chunks =>
    ((p.extend chunk).pass false).bind fun read =>
      (readChunks read.2 chunks).map (Place.spell read.1)

/-- The symbols of some chunks behind the text at a place, up to the end of the input. -/
def readFrom (p : Place) (chunks : List Text) : Except Malformed (List Symbol) :=
  (readChunks p chunks).bind fun read => read.2.finish.map (read.1 ++ ·)

/-- The symbols of an input. -/
def readAll (chunks : List Text) : Except Malformed (List Symbol) := readFrom { rest := [] } chunks

/-- The tokens of some symbols; the text in front of them is held in reverse. -/
def tokensFrom (buffered : Text) : List Symbol → List Token
  | [] => flush buffered
  | .char c :: symbols => tokensFrom (c :: buffered) symbols
  | .token token :: symbols => flush buffered ++ token :: tokensFrom [] symbols

theorem tokensFrom_chars (buffered piece : Text) (symbols : List Symbol) :
    tokensFrom buffered (chars piece ++ symbols) =
      tokensFrom (piece.reverse ++ buffered) symbols := by
  induction piece generalizing buffered with
  | nil => rfl
  | cons c piece ih =>
      rw [chars_cons, List.cons_append, tokensFrom, ih]
      simp

/-- Characters alone are one text token. -/
theorem tokensFrom_of_ne_nil {s : Text} (filled : s ≠ []) :
    tokensFrom [] (chars s) = [{ kind := .text, text := s }] := by
  have collected := tokensFrom_chars [] s []
  rw [List.append_nil, List.append_nil, tokensFrom, flush, if_neg (by simpa using filled),
    List.reverse_reverse] at collected
  exact collected

/-- The tokens that are collected from events are those of their symbols. -/
theorem tokensFrom_spelling (buffered : Text) (events : List Event) (symbols : List Symbol) :
    tokensFrom buffered (spelling events ++ symbols) =
      (collect buffered events).1 ++ tokensFrom (collect buffered events).2 symbols := by
  induction events generalizing buffered with
  | nil => rfl
  | cons event events ih =>
      cases event with
      | text piece =>
          rw [spelling_text, List.append_assoc, tokensFrom_chars, ih, collect_text]
      | mark token =>
          rw [spelling_mark, List.cons_append, tokensFrom, ih, collect_mark]
          simp

theorem readFrom_nil (p : Place) : readFrom p [] = p.finish := by
  rw [readFrom, readChunks, Except.bind]
  cases p.finish <;> rfl

theorem readFrom_cons (p : Place) (chunk : Text) (chunks : List Text) :
    readFrom p (chunk :: chunks) =
      ((p.extend chunk).pass false).bind fun read =>
        (readFrom read.2 chunks).map (read.1 ++ ·) := by
  rw [readFrom, readChunks]
  cases (p.extend chunk).pass false with
  | error e => rfl
  | ok read =>
      simp only [Except.bind, readFrom]
      cases readChunks read.2 chunks with
      | error e => rfl
      | ok read' =>
          simp only [Except.map, Place.spell]
          cases read'.2.finish with
          | error e => rfl
          | ok last => simp only [List.append_assoc]

/-- **The tokens of chunks are those of their symbols**, or what stops the reader stops both. -/
theorem tokenizeFrom_eq (done : List (List Token)) (t : Tokenizer) (chunks : List Text) :
    match readFrom ⟨t.reader.raw, t.reader.pending⟩ chunks with
    | .ok symbols => tokenizeFrom true done t chunks =
        { tokens := done.reverse.flatten ++ tokensFrom t.buffered symbols }
    | .error e => (tokenizeFrom true done t chunks).failure = some e := by
  -- on the chunks; `tokensFrom` starts with the text that the tokenizer holds back
  induction chunks generalizing done t with
  | nil =>
      rw [readFrom_nil, tokenizeFrom, Place.finish, Place.pass, Tokenizer.close, Reader.close]
      cases pass true t.reader.raw t.reader.pending with
      | error e => rfl
      | ok q =>
          have left : spelling q.leftover = (⟨q.raw, q.rest⟩ : Place).leftover := by
            rw [Pass.leftover, Place.leftover]
            cases q.raw <;> cases q.rest <;> simp [spelling, Event.symbols]
          have tokens := tokensFrom_spelling t.buffered (q.events ++ q.leftover) []
          rw [List.append_nil, spelling_append, left] at tokens
          simp only [Except.map, tokens]
          simp [tokensFrom]
  | cons chunk chunks ih =>
      rw [readFrom_cons, tokenizeFrom, Place.pass, Tokenizer.feed, Reader.feed]
      simp only [Place.extend_mk]
      cases pass false t.reader.raw (t.reader.pending ++ chunk) with
      | error e => rfl
      | ok q =>
          simp only [Except.map, Except.bind]
          have step := ih ((collect t.buffered q.events).1 :: done)
            ⟨⟨q.rest, q.raw⟩, (collect t.buffered q.events).2⟩
          cases onward : readFrom ⟨q.raw, q.rest⟩ chunks with
          | error e =>
              rw [onward] at step
              exact step
          | ok symbols =>
              rw [onward] at step
              simp only at step ⊢
              rw [step, tokensFrom_spelling]
              simp

theorem tokenize_of_ok {chunks : List Text} {symbols : List Symbol}
    (h : readAll chunks = .ok symbols) : tokenize chunks = { tokens := tokensFrom [] symbols } := by
  have tokens := tokenizeFrom_eq [] {} chunks
  rw [readAll] at h
  rw [h] at tokens
  exact tokens

theorem tokenize_of_error {chunks : List Text} {e : Malformed} (h : readAll chunks = .error e) :
    (tokenize chunks).failure = some e := by
  have tokens := tokenizeFrom_eq [] {} chunks
  rw [readAll] at h
  rw [h] at tokens
  exact tokens

/-! ## Pauses -/

/-- Chunks without text.  Each of them is a pass of its own. -/
def pauses (n : Nat) : List Text := List.replicate n []

theorem pauses_succ (n : Nat) : pauses (n + 1) = [] :: pauses n := rfl

theorem flatten_pauses (n : Nat) : (pauses n).flatten = [] := List.flatten_replicate_nil

section Pauses

variable {p q : Place} {symbols : List Symbol} {body : Text}

/-- A first chunk that is there at the start is read by a pause. -/
theorem readAll_cons (chunk : Text) (chunks : List Text) :
    readAll (chunk :: chunks) = readFrom { rest := chunk } ([] :: chunks) := by
  rw [readAll, readFrom_cons, readFrom_cons, Place.extend_nil]
  rfl

theorem readFrom_pause_of_waits (waits : p.Waits) (chunks : List Text) :
    readFrom p ([] :: chunks) = readFrom p chunks := by
  rw [readFrom_cons, Place.extend_nil, Place.pass_of_waits waits, Except.bind]
  cases readFrom p chunks <;> rfl

theorem readFrom_pause_of_stops (stops : p.Stops) (chunks : List Text) :
    ∃ e, readFrom p ([] :: chunks) = .error e := by
  obtain ⟨e, stopped⟩ := stops
  rw [readFrom_cons, Place.extend_nil, Place.pass_of_stops stopped]
  exact ⟨e, rfl⟩

theorem readFrom_pause_of_steps (step : p.Steps symbols q) (tidy : ¬ ∃ body, p.Stray body)
    (chunks : List Text) :
    readFrom p ([] :: chunks) = (readFrom q ([] :: chunks)).map (symbols ++ ·) := by
  rw [readFrom_cons, readFrom_cons, Place.extend_nil, Place.extend_nil,
    Place.pass_of_steps step tidy]
  cases q.pass false with
  | error e => rfl
  | ok read =>
      simp only [Except.map, Except.bind, Place.spell]
      cases readFrom read.2 chunks with
      | error e => rfl
      | ok later => simp only [List.append_assoc]

/-- A stray `&#` takes a pause of its own. -/
theorem readFrom_pause_of_stray (stray : p.Stray body) (chunks : List Text) :
    readFrom p ([] :: chunks) = (readFrom ⟨none, body⟩ chunks).map (chars ['&', '#'] ++ ·) := by
  rw [readFrom_cons, Place.extend_nil, Place.pass_of_stray stray]
  rfl

theorem readFrom_map_append (p : Place) (first later : List Symbol) (chunks : List Text) :
    ((readFrom p chunks).map (later ++ ·)).map (first ++ ·) =
      (readFrom p chunks).map (first ++ later ++ ·) := by
  cases readFrom p chunks with
  | error e => rfl
  | ok symbols => simp only [Except.map, List.append_assoc]

/-- **Enough pauses bring the reader to every place of a reading**, with one more pause at it. -/
theorem Reads.exists_pauses {first : List Symbol} (reads : Reads p first q) :
    ∃ n, ∀ chunks, readFrom p (pauses (n + 1) ++ chunks) =
      (readFrom q ([] :: chunks)).map (first ++ ·) := by
  induction reads with
  | refl p =>
      refine ⟨0, fun chunks => ?_⟩
      change readFrom p ([] :: chunks) = _
      cases readFrom p ([] :: chunks) <;> rfl
  | @step p q r first later step _ ih =>
      obtain ⟨n, same⟩ := ih
      -- a stray takes one more pause, every other step belongs to the pass at hand
      by_cases tidy : ∃ body, p.Stray body
      · obtain ⟨body, stray⟩ := tidy
        obtain ⟨rfl, rfl⟩ := step.unique (Place.next_of_stray stray)
        refine ⟨n + 1, fun chunks => ?_⟩
        rw [pauses_succ, List.cons_append, readFrom_pause_of_stray stray, same,
          readFrom_map_append]
      · refine ⟨n, fun chunks => ?_⟩
        rw [pauses_succ, List.cons_append, readFrom_pause_of_steps step tidy, ← List.cons_append,
          ← pauses_succ, same, readFrom_map_append]

/-- **The input may end so that the last pass comes by every place of a reading.** -/
theorem Reads.exists_pauses_finish {first : List Symbol} (reads : Reads p first q) :
    ∃ n, readFrom p (pauses n) = q.finish.map (first ++ ·) := by
  induction reads with
  | refl p =>
      refine ⟨0, ?_⟩
      rw [pauses, List.replicate_zero, readFrom_nil]
      cases p.finish <;> rfl
  | @step p q r first later step _ ih =>
      obtain ⟨n, same⟩ := ih
      rw [← readFrom_nil] at same ⊢
      by_cases tidy : ∃ body, p.Stray body
      · obtain ⟨body, stray⟩ := tidy
        obtain ⟨rfl, rfl⟩ := step.unique (Place.next_of_stray stray)
        refine ⟨n + 1, ?_⟩
        rw [pauses_succ, readFrom_pause_of_stray stray, same, readFrom_map_append]
      -- without a pause left, the step belongs to the last pass
      · have onward : readFrom p (pauses n) = (readFrom q (pauses n)).map (first ++ ·) := by
          cases n with
          | zero =>
              rw [pauses, List.replicate_zero, readFrom_nil, readFrom_nil]
              exact Place.finish_of_steps step tidy
          | succ n => exact readFrom_pause_of_steps step tidy _
        refine ⟨n, ?_⟩
        rw [onward, same, readFrom_map_append]

end Pauses

end PageAssembly.Markup
