import PageAssembly.Markup.Layout
import PageAssembly.Proofs.Markup.Decision
import PageAssembly.Proofs.Markup.Marked

/-!
# Which texts may be cut anywhere

A text may arrive in chunks of any size without a trace exactly when it is settled.

## Main definitions

* `Place.Stands` — what a reader does at a place, it does with more text in view as well
* `Markup.Settled` — no decision on a start of the text is taken too early, and every second stray
  `&#` is followed by text alone
* `Markup.Alike` — all ways to cut a text spell the same symbols
* `Markup.ChunkingInvisible` — all ways to cut a text give the same tokens and the same layout

## Main statements

* `Markup.chunking_invisible_iff` — chunking is invisible exactly in settled texts, and in those
  that no chunks bring to an end
* `Markup.chunkingInvisible_of_unquoted` — it is invisible in texts without references and quotes

### Why strays count

A pass ends behind a stray `&#`, so the number of strays that are passed before the end of the input
depends on the number of chunks, and the end of the input reads everything behind the next stray as
text.
-/

namespace PageAssembly.Markup

/-- What a reader does at a place, it does with more text in view as well. -/
structure Place.Stands (p : Place) (more : Text) : Prop where
  /-- The same step is taken. -/
  steps : ∀ symbols q, p.Steps symbols q → (p.extend more).Steps symbols (q.extend more)
  /-- Where the reader cannot go on, it still cannot. -/
  stops : p.Stops → (p.extend more).Stops

/-- **A text that may be cut anywhere.** -/
structure Settled (s : Text) : Prop where
  /-- Every decision that is taken over a start of the text stands with the rest in view. -/
  stands : ∀ seen unseen, seen ++ unseen = s → ∀ symbols p, Reads { rest := seen } symbols p →
    p.Stands unseen
  /-- Behind a stray `&#` that stands behind another one, everything is text. -/
  literal : ∀ p q, Behind { rest := s } p → Behind p q → q.finish = .ok (chars q.rest)

/-- A reading whose steps are all taken with more text in view is a reading with it. -/
theorem Reads.extend {start p : Place} {more : Text} {symbols : List Symbol}
    (reads : Reads start symbols p)
    (stands : ∀ before q first r, Reads start before q →
      Reads (start.extend more) before (q.extend more) → q.Steps first r →
        (q.extend more).Steps first (r.extend more)) :
    Reads (start.extend more) symbols (p.extend more) := by
  have go {q : Place} (onward : Reads q symbols p) : ∀ before, Reads start before q →
      Reads (start.extend more) before (q.extend more) →
        Reads (q.extend more) symbols (p.extend more) := by
    clear reads
    induction onward with
    | refl p => exact fun _ _ _ => .refl _
    | step step _ ih =>
        intro before reads longer
        have same := stands before _ _ _ reads longer step
        exact .step same (ih _ (reads.trans (.single step)) (longer.trans (.single same)))
  exact go reads [] (.refl _) (.refl _)

/-! ## Settled texts -/

section Settled

variable {s seen unseen chunk : Text} {symbols first : List Symbol} {p q : Place}

/-- **Texts without references and quotes are settled.** -/
theorem settled_of_unquoted (unreferenced : '&' ∉ s) (unquoted : ¬ HasQuote s) : Settled s where
  stands seen unseen hs symbols p reads := by
    have inside : p.rest ⊆ s := by
      rw [← hs]
      exact fun c member => List.mem_append_left _ (reads.suffix.subset member)
    have plain : ¬ HasQuote p.rest := fun quote => unquoted (quote.mono inside)
    refine ⟨fun first q step => ?_, fun stops => stops.extend plain unseen⟩
    exact Place.firm_of_unquoted step (fun member => unreferenced (inside member)) plain unseen
  literal p q behind _ := by
    obtain ⟨symbols, r, reads, ⟨rfl, -⟩, -⟩ := behind
    exact absurd (reads.suffix.subset List.mem_cons_self) unreferenced

/-- A step over a start of a settled text is taken with one more chunk in view as well. -/
theorem Settled.steps_chunk (settled : Settled s) (hs : seen ++ (chunk ++ unseen) = s)
    (hs' : (seen ++ chunk) ++ unseen = s) (reads : Reads { rest := seen } symbols p)
    (longer : Reads { rest := seen ++ chunk } symbols (p.extend chunk)) (step : p.Steps first q) :
    (p.extend chunk).Steps first (q.extend chunk) := by
  have whole := (settled.stands seen _ hs symbols p reads).steps first q step
  have later := settled.stands _ unseen hs' symbols _ longer
  -- with the chunk in view the reader neither stops nor waits, for with all in view it does not
  cases onward : (p.extend chunk).next with
  | error e =>
      have stops := later.stops ⟨e, onward⟩
      rw [← Place.extend_append] at stops
      exact absurd stops whole.not_stops
  | ok read =>
      cases read with
      | none => exact absurd onward (step.not_waits_between whole)
      | some read =>
          obtain ⟨other, q'⟩ := read
          have same := later.steps other q' onward
          rw [← Place.extend_append] at same
          obtain ⟨rfl, place⟩ := whole.unique same
          rw [Place.extend_append] at place
          rw [Place.extend_right_injective place]
          exact onward

/-- **What is read of a start of a settled text** is read of every longer start. -/
theorem Settled.reads_append (settled : Settled s) (hs : seen ++ (chunk ++ unseen) = s)
    (reads : Reads { rest := seen } symbols p) :
    Reads { rest := seen ++ chunk } symbols (p.extend chunk) := by
  have hs' : (seen ++ chunk) ++ unseen = s := by rw [List.append_assoc, hs]
  exact reads.extend fun _ _ _ _ reads longer step => settled.steps_chunk hs hs' reads longer step

/-- What is read of a start of a settled text is read of the text. -/
theorem Settled.reads_whole (settled : Settled s) (hs : seen ++ unseen = s)
    (reads : Reads { rest := seen } symbols p) :
    Reads { rest := s } symbols (p.extend unseen) := by
  subst hs
  exact settled.reads_append (by rw [List.append_nil]) reads

/-- **Chunks of a settled text** are read as the text is, up to a place where the reader waits, or
behind a stray `&#`; or the reader stops where it stops in the text. -/
theorem Settled.readChunks (settled : Settled s) (chunks : List Text)
    (hs : seen ++ chunks.flatten = s) (reads : Reads { rest := seen } symbols p)
    (ended : p.Waits ∨ Behind { rest := seen } p) :
    (∃ e, Markup.readChunks p chunks = .error e ∧
        ∃ later q, Reads { rest := s } later q ∧ q.Stops) ∨
      ∃ later q, Markup.readChunks p chunks = .ok (later, q) ∧
        Reads { rest := s } (symbols ++ later) q ∧ (q.Waits ∨ Behind { rest := s } q) := by
  induction chunks generalizing seen symbols p with
  | nil =>
      rw [List.flatten_nil, List.append_nil] at hs
      subst hs
      exact Or.inr ⟨[], p, rfl, by rwa [List.append_nil], ended⟩
  | cons chunk chunks ih =>
      rw [List.flatten_cons] at hs
      have longer := settled.reads_append hs reads
      rw [← List.append_assoc] at hs
      rw [Markup.readChunks]
      rcases Place.reads_of_pass (p.extend chunk) with
        ⟨e, failed, first, q, onward, stops⟩ | ⟨first, q, passed, onward, ended⟩
      · refine Or.inl ⟨e, by rw [failed]; rfl, symbols ++ first, q.extend chunks.flatten, ?_, ?_⟩
        · exact settled.reads_whole hs (longer.trans onward)
        · exact (settled.stands _ _ hs _ q (longer.trans onward)).stops stops
      · rw [passed]
        rcases ih hs (longer.trans onward) (ended.imp id fun behind => behind.trans longer) with
          ⟨e, failed, later⟩ | ⟨later, r, done, onward, ended⟩
        · exact Or.inl ⟨e, by simp only [Except.bind, failed]; rfl, later⟩
        · refine Or.inr ⟨first ++ later, r, by simp only [Except.bind, done]; rfl, ?_, ended⟩
          rwa [← List.append_assoc]

/-- **The end of the input goes on with the reading** where only text stands behind the strays. -/
theorem Reads.finish_eq {later : List Symbol} (reads : Reads p later q)
    (literal : ∀ r, Behind p r → r.finish = .ok (chars r.rest)) :
    p.finish = q.finish.map (later ++ ·) := by
  induction reads with
  | refl p => cases p.finish <;> rfl
  | @step p q r first later step onward ih =>
      have ih := ih fun b behind => literal b (behind.trans (.single step))
      have rest : p.finish = q.finish.map (first ++ ·) := by
        by_cases tidy : ∃ body, p.Stray body
        · obtain ⟨body, stray⟩ := tidy
          obtain ⟨rfl, rfl⟩ := step.unique (Place.next_of_stray stray)
          rw [Place.finish_of_stray stray, literal _ ⟨[], p, .refl p, stray, rfl⟩]
          rfl
        · exact Place.finish_of_steps step tidy
      rw [rest, ih]
      cases r.finish with
      | error e => rfl
      | ok last => simp only [Except.map, List.append_assoc]

/-- **All chunks of a settled text** are read as one reading of it. -/
theorem Settled.readAll_toOption (settled : Settled s) {chunks : List Text}
    (hs : chunks.flatten = s) (reads : Reads { rest := s } symbols p) (last : p.Waits ∨ p.Stops) :
    (readAll chunks).toOption = (p.finish.map (symbols ++ ·)).toOption := by
  have start : ({ rest := [] } : Place).Waits := rfl
  rcases settled.readChunks chunks hs (.refl { rest := [] }) (Or.inl start) with
    ⟨e, failed, later, q, onward, stops⟩ | ⟨later, q, done, onward, ended⟩
  · obtain ⟨rest, more, rfl⟩ := reads.linear_of_still onward stops.still
    obtain ⟨-, rfl⟩ := more.eq_of_still (Place.still_of_last last)
    obtain ⟨e', stopped⟩ := stops
    rw [readAll, readFrom, failed, Place.finish_of_stops stopped]
    rfl
  · rw [List.nil_append] at onward
    obtain ⟨rest, more, rfl⟩ := onward.linear_of_still reads (Place.still_of_last last)
    -- the last pass starts at `q`, which the reading of the whole text passes as well
    have finish : q.finish = p.finish.map (rest ++ ·) := by
      rcases ended with waits | behind
      · obtain ⟨rfl, rfl⟩ := more.eq_of_waits waits
        cases q.finish <;> rfl
      · exact more.finish_eq fun r => settled.literal q r behind
    rw [readAll, readFrom, done]
    simp only [Except.bind, finish]
    cases p.finish with
    | error e => rfl
    | ok last => simp only [Except.map, List.append_assoc]

end Settled

/-! ## Texts that all chunks read alike -/

/-- **All ways to cut the text** spell the same symbols. -/
def Alike (s : Text) (whole : List Symbol) : Prop :=
  ∀ chunks : List Text, chunks.flatten = s → readAll chunks = .ok whole

namespace Alike

variable {s seen unseen : Text} {whole symbols first : List Symbol} {p q : Place}

/-- Pauses bring the reading of a start of the text to a place where it waits for the rest. -/
theorem exists_waiting (alike : Alike s whole) (hs : seen ++ unseen = s) :
    ∃ later p last, Reads { rest := seen } later p ∧ p.Waits ∧
      readFrom p [unseen] = .ok last ∧ later ++ last = whole := by
  obtain ⟨later, p, reads, last⟩ := Place.exists_last { rest := seen }
  obtain ⟨n, same⟩ := reads.exists_pauses
  -- the first chunk is followed by as many empty ones as there are strays in it
  have given : (seen :: pauses n ++ [unseen]).flatten = s := by
    simp [flatten_pauses, hs]
  have done := alike _ given
  rw [List.cons_append, readAll_cons, ← List.cons_append, ← pauses_succ, same] at done
  rcases last with waits | stops
  · rw [readFrom_pause_of_waits waits] at done
    obtain ⟨last, read, spelled⟩ := exists_of_map_ok done
    exact ⟨later, p, last, reads, waits, read, spelled⟩
  · obtain ⟨e, failed⟩ := readFrom_pause_of_stops stops [unseen]
    rw [failed] at done
    cases done

/-- What is read of a start of the text is read of all chunks. -/
theorem exists_append_of_reads (alike : Alike s whole) (hs : seen ++ unseen = s)
    (reads : Reads { rest := seen } symbols p) : ∃ last, whole = symbols ++ last := by
  obtain ⟨later, q, last, onward, waits, -, rfl⟩ := alike.exists_waiting hs
  obtain ⟨rest, -, rfl⟩ := reads.linear_of_still onward waits.still
  exact ⟨rest ++ last, List.append_assoc _ _ _⟩

/-- Every reading of the text goes on up to a place where it waits for the end of the input. -/
theorem exists_finish_of_reads (alike : Alike s whole) (reads : Reads { rest := s } symbols p) :
    ∃ rest q last, Reads p rest q ∧ q.Waits ∧ q.finish = .ok last ∧
      whole = symbols ++ (rest ++ last) := by
  obtain ⟨later, q, last, onward, waits, read, rfl⟩ := alike.exists_waiting (List.append_nil s)
  obtain ⟨rest, more, rfl⟩ := reads.linear_of_still onward waits.still
  rw [readFrom_pause_of_waits waits, readFrom_nil] at read
  exact ⟨rest, q, last, more, waits, read, List.append_assoc _ _ _⟩

/-- No reading of a start of the text stops. -/
theorem not_stops (alike : Alike s whole) (hs : seen ++ unseen = s)
    (reads : Reads { rest := seen } symbols p) : ¬ p.Stops := by
  intro stops
  obtain ⟨later, q, last, onward, waits, -⟩ := alike.exists_waiting hs
  obtain ⟨rest, more, -⟩ := onward.linear_of_still reads stops.still
  obtain ⟨-, rfl⟩ := more.eq_of_waits waits
  obtain ⟨e, stopped⟩ := stops
  rw [Place.Waits, stopped] at waits
  cases waits

/-- **A step over a start of the text stands with the rest in view**: else the symbols would come
apart. -/
theorem steps (alike : Alike s whole) (hs : seen ++ unseen = s)
    (reads : Reads { rest := seen } symbols p)
    (longer : Reads { rest := s } symbols (p.extend unseen)) (step : p.Steps first q) :
    (p.extend unseen).Steps first (q.extend unseen) := by
  obtain ⟨later, spelled⟩ := alike.exists_append_of_reads hs (reads.trans (.single step))
  obtain ⟨rest, r, last, onward, waits, finished, spelled'⟩ := alike.exists_finish_of_reads longer
  rw [spelled, List.append_assoc, List.append_cancel_left_eq] at spelled'
  rcases step.stands_or_apart unseen with same | stops | ⟨other, q', step', apart⟩ | ⟨held, apart⟩
  · exact same
  · exact absurd stops (alike.not_stops (List.append_nil s) longer)
  -- what was spelled already differs from what the same place spells with the rest in view
  · obtain ⟨tail, -, rfl⟩ := onward.of_steps step' waits.still
    rw [List.append_assoc] at spelled'
    exact absurd spelled' (apart.append_ne later (tail ++ last))
  · obtain ⟨rfl, rfl⟩ := onward.eq_of_waits held
    have differ := (apart last finished).append_ne later []
    rw [List.append_nil] at differ
    exact absurd spelled' differ

/-- What is read behind a stray `&#` is the same for all pauses. -/
theorem readFrom_of_behind (alike : Alike s whole) (behind : Behind { rest := s } p) :
    ∃ last, ∀ n, readFrom p (pauses n) = .ok last := by
  obtain ⟨symbols, q, reads, stray, raw⟩ := behind
  obtain ⟨_, rest⟩ := p
  subst raw
  obtain ⟨n, same⟩ := reads.exists_pauses
  have behindRead (m : ℕ) : (readFrom ⟨none, rest⟩ (pauses m)).map
      (symbols ++ chars ['&', '#'] ++ ·) = .ok whole := by
    have given : (s :: (pauses n ++ pauses m)).flatten = s := by
      simp [flatten_pauses]
    have done := alike _ given
    rwa [readAll_cons, ← List.cons_append, ← pauses_succ, same, readFrom_pause_of_stray stray,
      readFrom_map_append] at done
  obtain ⟨last, -, spelled⟩ := exists_of_map_ok (behindRead 0)
  refine ⟨last, fun m => ?_⟩
  obtain ⟨last', read, spelled'⟩ := exists_of_map_ok (behindRead m)
  rw [← spelled', List.append_cancel_left_eq] at spelled
  rw [read, spelled]

/-- **Texts that all chunks read alike are settled.** -/
theorem settled (alike : Alike s whole) : Settled s where
  stands seen unseen hs symbols p reads := by
    refine ⟨fun first q step => ?_, fun stops => absurd stops (alike.not_stops hs reads)⟩
    have longer : Reads (Place.extend { rest := seen } unseen) symbols (p.extend unseen) := by
      refine reads.extend fun before q first r reads longer step => ?_
      rw [Place.extend_mk, hs] at longer
      exact alike.steps hs reads longer step
    rw [Place.extend_mk, hs] at longer
    exact alike.steps hs reads longer step
  literal p q behind further := by
    obtain ⟨last, same⟩ := alike.readFrom_of_behind behind
    obtain ⟨symbols, r, reads, stray, raw⟩ := further
    obtain ⟨_, rest⟩ := q
    subst raw
    -- one number of pauses ends right behind the stray, another one right before it
    obtain ⟨n, passes⟩ := reads.exists_pauses
    obtain ⟨m, ends⟩ := reads.exists_pauses_finish
    have text : symbols ++ (chars ['&', '#'] ++ chars rest) = last := by
      rw [same, Place.finish_of_stray stray] at ends
      exact (Except.ok.inj ends).symm
    have read := passes []
    rw [List.append_nil, same, readFrom_pause_of_stray stray, readFrom_nil] at read
    obtain ⟨later, finished, spelled⟩ := exists_of_map_ok read.symm
    obtain ⟨left, closed, rfl⟩ := exists_of_map_ok finished
    rw [← text, List.append_cancel_left_eq, List.append_cancel_left_eq] at spelled
    rw [spelled] at closed
    exact closed

end Alike

/-! ## Invisible chunks -/

/-- **Chunking is invisible** in a text: however it is cut, no tokens come out of it, or the same
tokens and the same layout. -/
def ChunkingInvisible (s : Text) : Prop :=
  ∀ xs ys : List Text, xs.flatten = s → ys.flatten = s →
    (tokenize xs).failure ≠ none ∧ (tokenize ys).failure ≠ none ∨
      tokenize xs = tokenize ys ∧ layout xs = layout ys

theorem tokenize_eq_of_toOption {xs ys : List Text}
    (h : (readAll xs).toOption = (readAll ys).toOption) :
    (tokenize xs).failure ≠ none ∧ (tokenize ys).failure ≠ none ∨ tokenize xs = tokenize ys := by
  cases first : readAll xs with
  | error e =>
      cases second : readAll ys with
      | error e' =>
          rw [tokenize_of_error first, tokenize_of_error second]
          exact Or.inl ⟨Option.some_ne_none e, Option.some_ne_none e'⟩
      | ok symbols =>
          rw [first, second] at h
          cases h
  | ok symbols =>
      cases second : readAll ys with
      | error e =>
          rw [first, second] at h
          cases h
      | ok symbols' =>
          rw [first, second] at h
          cases h
          rw [tokenize_of_ok first, tokenize_of_ok second]
          exact Or.inr rfl

theorem exists_readAll_of_tokenize {chunks : List Text} (h : (tokenize chunks).failure = none) :
    ∃ whole, readAll chunks = .ok whole ∧ tokenize chunks = { tokens := tokensFrom [] whole } := by
  cases read : readAll chunks with
  | error e =>
      rw [tokenize_of_error read] at h
      cases h
  | ok whole => exact ⟨whole, rfl, tokenize_of_ok read⟩

theorem Settled.chunkingInvisible {s : Text} (settled : Settled s) : ChunkingInvisible s := by
  intro xs ys hx hy
  obtain ⟨symbols, p, reads, last⟩ := Place.exists_last { rest := s }
  have alike := settled.readAll_toOption hx reads last
  rw [← settled.readAll_toOption hy reads last] at alike
  refine (tokenize_eq_of_toOption alike).imp id fun same => ⟨same, ?_⟩
  rw [layout, layout, same]

/-- Markup without references and quotes may be cut anywhere. -/
theorem chunkingInvisible_of_unquoted {s : Text} (unreferenced : '&' ∉ s)
    (unquoted : ¬ HasQuote s) : ChunkingInvisible s :=
  (settled_of_unquoted unreferenced unquoted).chunkingInvisible

/-- **Chunking is invisible exactly in settled texts**, and in those that no chunks bring to an
end. -/
theorem chunking_invisible_iff (s : Text) : ChunkingInvisible s ↔
    Settled s ∨ ∀ chunks : List Text, chunks.flatten = s → (tokenize chunks).failure ≠ none := by
  constructor
  · intro invisible
    by_cases reached : ∃ chunks : List Text, chunks.flatten = s ∧ (tokenize chunks).failure = none
    · left
      obtain ⟨given, rfl, success⟩ := reached
      obtain ⟨whole, read, tokens⟩ := exists_readAll_of_tokenize success
      have alike : Alike given.flatten whole := by
        intro chunks same
        rcases invisible chunks given same rfl with ⟨-, failed⟩ | ⟨equal, -⟩
        · exact absurd success failed
        · rw [← equal] at success
          obtain ⟨symbols, read', tokens'⟩ := exists_readAll_of_tokenize success
          rw [tokens, tokens'] at equal
          rw [read', tokensFrom_injective (readFrom_marked read') (readFrom_marked read)
            (congrArg Tokens.tokens equal)]
      exact alike.settled
    · exact Or.inr fun chunks same success => reached ⟨chunks, same, success⟩
  · rintro (settled | failing)
    · exact settled.chunkingInvisible
    · exact fun xs ys hx hy => Or.inl ⟨failing xs hx, failing ys hy⟩

/-- Two ways to cut a text that give different tokens show. -/
theorem not_chunkingInvisible {s : Text} {xs ys : List Text} {a b : List Token}
    (first : tokenize xs = { tokens := a }) (second : tokenize ys = { tokens := b })
    (differ : a ≠ b) (hx : xs.flatten = s) (hy : ys.flatten = s) : ¬ ChunkingInvisible s := by
  intro invisible
  rcases invisible xs ys hx hy with ⟨failed, -⟩ | ⟨same, -⟩
  · rw [first] at failed
    exact failed rfl
  · rw [first, second] at same
    exact differ (congrArg Tokens.tokens same)

/-- **Chunks can show**: a name of a reference ends early at `-`, and a quote that is closed by the
next chunk only is no quote. -/
theorem chunking_visible : ¬ ChunkingInvisible "&a-b;".toList ∧
    ¬ ChunkingInvisible "<a b= 'x> y'>".toList := by
  constructor
  · have early : tokenize ["&a-".toList, "b;".toList] =
        { tokens := [{ kind := .text, text := "&a;-b;".toList }] } := by decide +kernel
    have whole : tokenize ["&a-b;".toList] =
        { tokens := [{ kind := .text, text := "&a-b;".toList }] } := by decide +kernel
    exact not_chunkingInvisible early whole (by decide) (by decide) (by decide)
  · have early : tokenize ["<a b= 'x>".toList, " y'>".toList] =
        { tokens := [{ kind := .startTag, text := "<a b= 'x>".toList, tag := some ['a'] },
          { kind := .text, text := " y'>".toList }] } := by decide +kernel
    have whole : tokenize ["<a b= 'x> y'>".toList] =
        { tokens := [{ kind := .startTag, text := "<a b= 'x> y'>".toList, tag := some ['a'] }] } := by
      decide +kernel
    exact not_chunkingInvisible early whole (by decide) (by decide) (by decide)

end PageAssembly.Markup
