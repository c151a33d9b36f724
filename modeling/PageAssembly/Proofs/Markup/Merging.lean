import Mathlib.Data.List.Chain
import PageAssembly.Proofs.Markup.History
import PageAssembly.Proofs.Markup.Marked

/-!
# Merged text

Pieces of text that follow one another become one token, whatever chunks they arrive in and however
often finished tokens are handed over in between.  So no two text tokens are neighbours and none is
empty.

## Main definitions

* `Markup.Merged` — tokens without empty text and without neighbouring texts
* `Markup.gather` — the tokens of some events, with the pieces of text kept apart until a token
  follows

## Main statements

* `Markup.merged_tokensFrom` — the tokens of some symbols are merged
* `Markup.gather_eq_collect` — gathered pieces make the same tokens when no piece is empty
* `Markup.tokenize_merged` — the tokens of every input are merged and stand in its order, and tokens
  that were handed over stay

### Empty pieces

A collector that keeps the pieces cannot tell an empty piece from text.  It is the reader that never
reports one, and only for this reason no text token is empty.
-/

namespace PageAssembly.Markup

/-- **Merged text.** -/
structure Merged (tokens : List Token) : Prop where
  /-- No text token is empty. -/
  filled : ∀ token ∈ tokens, token.kind = .text → token.text ≠ []
  /-- No text token follows another. -/
  apart : tokens.IsChain fun first later => ¬ (first.kind = .text ∧ later.kind = .text)

section Merged

variable {buffered : Text} {token : Token} {tokens later : List Token}

theorem Merged.of_isPrefix (merged : Merged later) (front : tokens <+: later) : Merged tokens where
  filled token member := merged.filled token (front.subset member)
  apart := merged.apart.prefix front

theorem merged_flush (buffered : Text) : Merged (flush buffered) := by
  rw [flush]
  split
  · exact ⟨by simp, .nil⟩
  · next filled => exact ⟨by simpa using filled, .singleton _⟩

theorem Merged.cons (merged : Merged tokens) (kind : token.kind ≠ .text) :
    Merged (token :: tokens) where
  filled token' member := by
    rcases List.mem_cons.mp member with rfl | member
    · exact fun same => absurd same kind
    · exact merged.filled token' member
  apart := List.isChain_cons.mpr ⟨fun _ _ both => kind both.1, merged.apart⟩

/-- A token that is not text comes between two texts. -/
theorem Merged.flush_append (merged : Merged tokens) (kind : token.kind ≠ .text) :
    Merged (flush buffered ++ token :: tokens) where
  filled token' member := by
    rcases List.mem_append.mp member with member | member
    · exact (merged_flush buffered).filled token' member
    · exact (merged.cons kind).filled token' member
  apart := by
    refine (merged_flush buffered).apart.append (merged.cons kind).apart ?_
    intro last _ first head both
    rw [List.head?_cons, Option.mem_some_iff] at head
    exact kind (head ▸ both.2)

/-- **The tokens of some symbols are merged.** -/
theorem merged_tokensFrom {symbols : List Symbol} (marked : Marked symbols) (buffered : Text) :
    Merged (tokensFrom buffered symbols) := by
  induction symbols generalizing buffered with
  | nil => exact merged_flush buffered
  | cons symbol symbols ih =>
      have later : Marked symbols := fun token h => marked token (List.mem_cons_of_mem _ h)
      cases symbol with
      | char c => exact ih later (c :: buffered)
      | token token => exact (ih later []).flush_append (marked token List.mem_cons_self)

end Merged

/-! ## Pieces -/

/-- The token of the gathered pieces, if there are any.  A piece counts even when it is empty. -/
def flushPieces (pieces : List Text) : List Token :=
  if pieces.isEmpty then [] else [{ kind := .text, text := pieces.flatten }]

/-- The tokens that the events finish, and the pieces of text behind the last of them. -/
def gather (pieces : List Text) : List Event → List Token × List Text
  | [] => ([], pieces)
  | .text piece :: events => gather (pieces ++ [piece]) events
  | .mark token :: events =>
    (flushPieces pieces ++ token :: (gather [] events).1, (gather [] events).2)

/-- The tokens that are known when the reader has stopped or come to the end of the input, from what
has been gathered. -/
def gathered (failure : Option Malformed) (found : List Token × List Text) : List Token :=
  found.1 ++ if failure = none then flushPieces found.2 else []

theorem flushPieces_eq_flush {pieces : List Text} (filled : [] ∉ pieces) :
    flushPieces pieces = flush pieces.flatten.reverse := by
  cases pieces with
  | nil => rfl
  | cons piece pieces =>
      have some : piece ≠ [] := fun none => filled (none ▸ List.mem_cons_self)
      rw [flushPieces, flush, if_neg (by simp), if_neg (by simp [some]), List.reverse_reverse]

/-- **Gathered pieces make the same tokens when no piece is empty.** -/
theorem gather_eq_collect {pieces : List Text} {events : List Event} (held : [] ∉ pieces)
    (filled : .text [] ∉ events) :
    (gather pieces events).1 = (collect pieces.flatten.reverse events).1 ∧
      flushPieces (gather pieces events).2 =
        flush (collect pieces.flatten.reverse events).2 := by
  induction events generalizing pieces with
  | nil => exact ⟨rfl, flushPieces_eq_flush held⟩
  | cons event events ih =>
      have later : .text [] ∉ events := fun member => filled (List.mem_cons_of_mem _ member)
      cases event with
      | text piece =>
          have some : [] ≠ piece := fun none => filled (none ▸ List.mem_cons_self)
          have more := @ih (pieces ++ [piece]) (by simp [held, some]) later
          rw [List.flatten_append, List.flatten_singleton, List.reverse_append] at more
          exact more
      | mark token =>
          have more := @ih [] List.not_mem_nil later
          rw [List.flatten_nil, List.reverse_nil] at more
          rw [gather, collect_mark, flushPieces_eq_flush held, more.1]
          exact ⟨rfl, more.2⟩

/-! ## Histories -/

/-- A report has no empty piece of text. -/
theorem Report.filled {raw : Option RawElement} {s source : Text} {events : List Event}
    (report : Report raw s source events) : .text [] ∉ events := by
  cases report with
  | text filled => simpa using filled
  | construct c _ => simp
  | startTag _ _ => simp
  | endTag _ _ filled => simpa using filled

theorem filled_events (chunks : List Text) : .text [] ∉ (history chunks).events := by
  intro member
  obtain ⟨portion, found, member⟩ := List.mem_flatMap.mp member
  obtain ⟨raw, s, report⟩ := exists_report_of_mem_portions found
  exact report.filled member

theorem marked_events (chunks : List Text) : Marked (spelling (history chunks).events) := by
  rw [History.events, spelling_flatMap_events]
  intro token member
  obtain ⟨portion, found, member⟩ := List.mem_flatMap.mp member
  obtain ⟨raw, s, report⟩ := exists_report_of_mem_portions found
  exact report.marked token member

/-- What is collected, with the text that is still held, are the tokens of the symbols. -/
theorem collect_flush (events : List Event) :
    (collect [] events).1 ++ flush (collect [] events).2 = tokensFrom [] (spelling events) := by
  have tokens := tokensFrom_spelling [] events []
  rw [List.append_nil, tokensFrom] at tokens
  exact tokens.symm

/-- What is known is a beginning of the tokens of the symbols. -/
theorem isPrefix_finished (failure : Option Malformed) (events : List Event) :
    finished failure (collect [] events) <+: tokensFrom [] (spelling events) := by
  rw [finished, ← collect_flush]
  split
  · exact List.prefix_rfl
  · rw [List.append_nil]
    exact List.prefix_append _ _

/-- What is known spells the events, up to text that is still held when the reader stops. -/
theorem exists_symbols_finished (failure : Option Malformed) {events : List Event}
    (marked : Marked (spelling events)) :
    ∃ held, spelling events =
        (finished failure (collect [] events)).flatMap Token.symbols ++ chars held ∧
      (failure = none → held = []) := by
  have spelled := symbols_tokensFrom marked []
  rw [← collect_flush, List.flatMap_append, symbols_flush, List.reverse_nil, chars_nil,
    List.nil_append] at spelled
  rw [finished]
  split
  · refine ⟨[], ?_, fun _ => rfl⟩
    rw [List.flatMap_append, symbols_flush, spelled, chars_nil, List.append_nil]
  · next failed =>
      refine ⟨(collect [] events).2.reverse, ?_, fun success => absurd success failed⟩
      rw [List.append_nil, spelled]

/-- Tokens that were handed over stay the first tokens. -/
theorem isPrefix_done (done : List (List Token)) (t : Tokenizer) (chunks : List Text) :
    done.reverse.flatten <+: (tokenizeFrom true done t chunks).tokens := by
  rw [tokens_tokenizeFrom]
  exact List.prefix_append _ _

theorem isPrefix_tokenizeFrom (done : List (List Token)) (t : Tokenizer) (front back : List Text) :
    (tokenizeFrom false done t front).tokens <+:
      (tokenizeFrom true done t (front ++ back)).tokens := by
  induction front generalizing done t with
  | nil => exact isPrefix_done done t back
  | cons chunk front ih =>
      rw [List.cons_append, tokenizeFrom, tokenizeFrom]
      cases t.feed chunk with
      | error e => exact List.prefix_rfl
      | ok read => exact ih (read.1 :: done) read.2

/-- **The tokens of every input are merged and stand in its order.**  The pieces of text may be kept
until a token follows, since none of them is empty.  Every turn of the reader takes the next piece
of the input, and the tokens spell what is reported for these pieces, one piece after the other.
What was handed over before the later chunks arrived is where the tokens begin. -/
theorem tokenize_merged (chunks : List Text) :
    Merged (tokenize chunks).tokens ∧
      (tokenize chunks).tokens =
        gathered (tokenize chunks).failure (gather [] (history chunks).events) ∧
      (∃ unread, chunks.flatten = (history chunks).portions.flatMap Portion.source ++ unread ∧
        ((tokenize chunks).failure = none → unread = [])) ∧
      (∃ held, (history chunks).portions.flatMap Portion.symbols =
          (tokenize chunks).tokens.flatMap Token.symbols ++ chars held ∧
        ((tokenize chunks).failure = none → held = [])) ∧
      ∀ front back, chunks = front ++ back →
        (tokenizeBroken front).tokens <+: (tokenize chunks).tokens := by
  have tokens := tokens_tokenize chunks
  have marked := marked_events chunks
  refine ⟨?_, ?_, exists_source_history chunks, ?_, ?_⟩
  · rw [tokens]
    exact (merged_tokensFrom marked []).of_isPrefix (isPrefix_finished _ _)
  · obtain ⟨known, held⟩ := @gather_eq_collect [] _ List.not_mem_nil (filled_events chunks)
    rw [tokens, finished, gathered, known, held]
    rfl
  · rw [← spelling_flatMap_events, tokens]
    exact exists_symbols_finished _ marked
  · rintro front back rfl
    exact isPrefix_tokenizeFrom [] {} front back

end PageAssembly.Markup
