import PageAssembly.Markup.Tokenize

/-!
# Reading place by place

A reading goes from place to place and spells symbols: one for each character of text, and one for
each token that is not text.  A chunk boundary inside a piece of text leaves no trace in the
symbols, so readings of differently cut input can be compared.

## Main definitions

* `Markup.Symbol` — a character of text or a token
* `Markup.Place` — the raw element that is open and the text that is left
* `Place.next` — what a reader does at a place, as long as more text may come
* `Place.Stray` — a place at an `&#` that starts no reference
* `Place.pass`, `Place.finish` — one pass, and the end of the input, in symbols

## Main statements

* `Markup.move_false_halt`, `Markup.move_closing` — where a pass ends, and what the end of the input
  changes
* `Place.pass_of_steps`, `Place.finish_of_steps` — a pass takes the steps of its places, but it ends
  behind a stray `&#`
* `Place.induction` — a property of places that steps hand back holds everywhere

### Why a character at a time

A move takes a whole run of characters that start no markup, and more text makes the run longer.
As a step it takes one character, which more text does not change.
-/

namespace PageAssembly.Markup

/-! ## Symbols -/

/-- A unit of what a reading spells. -/
inductive Symbol where
  /-- A character of text. -/
  | char (c : Char)
  /-- A token that is not text. -/
  | token (token : Token)
  deriving DecidableEq, Repr

/-- The symbols of a piece of text. -/
def chars (s : Text) : List Symbol := s.map .char

@[simp] theorem chars_nil : chars [] = [] := rfl

@[simp] theorem chars_cons (c : Char) (s : Text) : chars (c :: s) = .char c :: chars s := rfl

@[simp] theorem chars_append (s t : Text) : chars (s ++ t) = chars s ++ chars t :=
  List.map_append

/-- The symbols of an event. -/
def Event.symbols : Event → List Symbol
  | .text piece => chars piece
  | .mark token => [.token token]

/-- The symbols of some events. -/
def spelling (events : List Event) : List Symbol := events.flatMap Event.symbols

@[simp] theorem spelling_nil : spelling [] = [] := rfl

@[simp] theorem spelling_text (piece : Text) (events : List Event) :
    spelling (.text piece :: events) = chars piece ++ spelling events := rfl

@[simp] theorem spelling_mark (token : Token) (events : List Event) :
    spelling (.mark token :: events) = .token token :: spelling events := rfl

@[simp] theorem spelling_append (first second : List Event) :
    spelling (first ++ second) = spelling first ++ spelling second :=
  List.flatMap_append

/-! ## Places -/

/-- Where a reading stands. -/
structure Place where
  /-- The raw element that is open. -/
  raw : Option RawElement := none
  /-- The text that is left. -/
  rest : Text
  deriving DecidableEq, Repr

/-- What a move spells and the place it leads to; nothing where it waits for more text. -/
def Move.next? : Move → Option (List Symbol × Place)
  | .advance events rest raw => some (spelling events, ⟨raw, rest⟩)
  | .halt [] _ => none
  | .halt (event :: events) rest => some (spelling (event :: events), ⟨none, rest⟩)

namespace Place

/-- The place with more text behind it. -/
def extend (p : Place) (more : Text) : Place := { p with rest := p.rest ++ more }

@[simp] theorem extend_mk (raw : Option RawElement) (s more : Text) :
    (⟨raw, s⟩ : Place).extend more = ⟨raw, s ++ more⟩ := rfl

@[simp] theorem extend_nil (p : Place) : p.extend [] = p := by
  rw [extend, List.append_nil]

theorem extend_append (p : Place) (s t : Text) : p.extend (s ++ t) = (p.extend s).extend t := by
  simp [extend]

theorem extend_right_injective {p q : Place} {more : Text} (h : p.extend more = q.extend more) :
    p = q := by
  cases p
  cases q
  simpa [extend] using h

/-- **What a reader does at a place** as long as more text may come: it waits, or it spells symbols
and goes on. -/
def next : Place → Except Malformed (Option (List Symbol × Place))
  | ⟨_, []⟩ => .ok none
  | ⟨none, c :: rest⟩ =>
    if isSpecial c then (move false none (c :: rest)).map Move.next?
    else .ok (some ([.char c], ⟨none, rest⟩))
  | ⟨some element, rest⟩ => (move false (some element) rest).map Move.next?

/-- The reader waits for more text. -/
def Waits (p : Place) : Prop := p.next = .ok none

/-- The reader cannot go on. -/
def Stops (p : Place) : Prop := ∃ e, p.next = .error e

/-- The reader goes on. -/
def Steps (p : Place) (symbols : List Symbol) (q : Place) : Prop := p.next = .ok (some (symbols, q))

/-- **A stray `&#`.**  It starts no reference, and a semicolon stands somewhere behind it. -/
def Stray (p : Place) (body : Text) : Prop :=
  p = ⟨none, '&' :: '#' :: body⟩ ∧ readCharacterReference? body = none ∧ ';' ∈ body

end Place

/-! ## Successes -/

section Success

variable {α β : Type} {read : Except Malformed α} {b : β}

theorem exists_of_map_ok {f : α → β} (h : read.map f = .ok b) : ∃ a, read = .ok a ∧ f a = b := by
  cases read with
  | error e => cases h
  | ok a => exact ⟨a, rfl, Except.ok.inj h⟩

theorem exists_of_bind_ok {f : α → Except Malformed β} (h : read.bind f = .ok b) :
    ∃ a, read = .ok a ∧ f a = .ok b := by
  cases read with
  | error e => cases h
  | ok a => exact ⟨a, rfl, h⟩

end Success

/-! ## Halting and closing -/

theorem moveFound_false_halt {s rest : Text} {events : List Event}
    {found : Option (List Event × Text)} (h : moveFound false s found = .halt events rest) :
    events = [] ∧ rest = '<' :: s := by
  unfold moveFound at h
  split at h
  · cases h
  · cases h
    exact ⟨rfl, rfl⟩

theorem moveTag_ne_halt {tag : StartTag} {selfClosing : Bool} {s rest : Text}
    {events : List Event} : moveTag tag selfClosing s ≠ .ok (.halt events rest) := by
  simp only [moveTag]
  split <;> simp

theorem moveStartTag_false_halt {s rest : Text} {events : List Event}
    (h : moveStartTag false s = .ok (.halt events rest)) : events = [] ∧ rest = '<' :: s := by
  simp only [moveStartTag] at h
  split at h
  · exact absurd h moveTag_ne_halt
  · exact absurd h moveTag_ne_halt
  · cases h
  · cases h
    exact ⟨rfl, rfl⟩

theorem moveMarkup_false_halt {s rest : Text} {events : List Event}
    (h : moveMarkup false s = .ok (.halt events rest)) : events = [] ∧ rest = '<' :: s := by
  rcases moveMarkup_cases s with rfl | tag | ⟨found, -, moved⟩ | ⟨e, failed⟩ | text
  · cases h
    exact ⟨rfl, rfl⟩
  · rw [tag] at h
    exact moveStartTag_false_halt h
  · rw [moved] at h
    exact moveFound_false_halt (Except.ok.inj h)
  · rw [failed] at h
    cases h
  · rw [text] at h
    cases h

theorem moveReference_false_halt {s rest : Text} {events : List Event}
    (h : moveReference false s = .halt events rest) : events = [] ∧ rest = '&' :: s ∨
      events = [.text ['&', '#']] ∧ (⟨none, '&' :: s⟩ : Place).Stray rest := by
  unfold moveReference at h
  split at h
  · cases h
    exact Or.inl ⟨rfl, rfl⟩
  · next body =>
      split at h
      · cases h
      · next unread =>
          split at h
          · next semicolon =>
              cases h
              exact Or.inr ⟨rfl, rfl, unread, List.elem_iff.mp semicolon⟩
          · cases h
            exact Or.inl ⟨rfl, rfl⟩
  · split at h
    · split at h
      · cases h
      · simp only [Bool.false_and, Bool.false_eq_true, if_false] at h
        cases h
        exact Or.inl ⟨rfl, rfl⟩
    · cases h

/-- **A move that ends a pass** waits at the same place, or stands at a stray `&#`. -/
theorem move_false_halt {raw : Option RawElement} {s rest : Text} {events : List Event}
    (h : move false raw s = .ok (.halt events rest)) : events = [] ∧ rest = s ∨
      events = [.text ['&', '#']] ∧ (⟨raw, s⟩ : Place).Stray rest := by
  cases raw with
  | some element =>
      simp only [move, moveRaw, Except.ok.injEq] at h
      split at h
      · cases h
        exact Or.inl ⟨rfl, rfl⟩
      · split at h <;> cases h
  | none =>
      simp only [move] at h
      split at h
      · cases h
      · split at h
        · exact Or.inl (moveMarkup_false_halt h)
        · exact moveReference_false_halt (Except.ok.inj h)
        · cases h
          exact Or.inl ⟨rfl, rfl⟩

theorem moveFound_closing (s : Text) (found : Option (List Event × Text)) :
    moveFound true s found = moveFound false s found ∨
      moveFound false s found = .halt [] ('<' :: s) := by
  cases found with
  | some read => exact Or.inl rfl
  | none => exact Or.inr rfl

theorem moveStartTag_closing (s : Text) : moveStartTag true s = moveStartTag false s ∨
    moveStartTag false s = .ok (.halt [] ('<' :: s)) := by
  simp only [moveStartTag]
  split
  · exact Or.inl rfl
  · exact Or.inl rfl
  · exact Or.inl rfl
  · exact Or.inr rfl

theorem moveMarkup_closing (s : Text) : moveMarkup true s = moveMarkup false s ∨
    moveMarkup false s = .ok (.halt [] ('<' :: s)) := by
  rcases moveMarkup_cases s with rfl | tag | ⟨found, -, moved⟩ | ⟨e, failed⟩ | text
  · exact Or.inl rfl
  · rw [tag, tag]
    exact moveStartTag_closing s
  · rw [moved, moved]
    exact (moveFound_closing s found).imp (congrArg _) (congrArg _)
  · exact Or.inl (by rw [failed, failed])
  · exact Or.inl (by rw [text, text])

theorem moveReference_closing (s : Text) : moveReference true s = moveReference false s ∨
    moveReference false s = .halt [] ('&' :: s) := by
  unfold moveReference
  split
  · exact Or.inl rfl
  · exact Or.inl rfl
  · next c body _ =>
      split
      · split
        · exact Or.inl rfl
        · exact Or.inr rfl
      · exact Or.inl rfl

/-- **The end of the input changes only the moves that wait for more.** -/
theorem move_closing (raw : Option RawElement) (s : Text) :
    move true raw s = move false raw s ∨ move false raw s = .ok (.halt [] s) := by
  cases raw with
  | some element => exact Or.inl rfl
  | none =>
      simp only [move]
      split
      · exact Or.inl rfl
      · split
        · exact moveMarkup_closing _
        · exact (moveReference_closing _).imp (congrArg _) (congrArg _)
        · exact Or.inl rfl

/-- What does not wait is the same at the end of the input. -/
theorem move_of_move_false {closing : Bool} {raw : Option RawElement} {s : Text}
    {r : Except Malformed Move} (h : move false raw s = r) (onward : r ≠ .ok (.halt [] s)) :
    move closing raw s = r := by
  cases closing with
  | false => exact h
  | true =>
      rw [← h] at onward ⊢
      exact (move_closing raw s).resolve_right onward

/-! ## Steps -/

namespace Place

variable {p q : Place} {body : Text} {symbols : List Symbol} {closing : Bool}

/-- A step takes one plain character, or it is a move. -/
theorem next_eq (p : Place) : p.rest = [] ∧ p.next = .ok none ∨
    (∃ c rest, p = ⟨none, c :: rest⟩ ∧ isSpecial c = false ∧
      p.next = .ok (some ([.char c], ⟨none, rest⟩))) ∨
    p.rest ≠ [] ∧ p.next = (move false p.raw p.rest).map Move.next? := by
  obtain ⟨raw, rest⟩ := p
  cases rest with
  | nil => exact Or.inl ⟨rfl, rfl⟩
  | cons c rest =>
      refine Or.inr ?_
      cases raw with
      | some element => exact Or.inr ⟨List.cons_ne_nil _ _, rfl⟩
      | none =>
          cases special : isSpecial c with
          | false =>
              refine Or.inl ⟨c, rest, rfl, special, ?_⟩
              rw [next, special]
              rfl
          | true =>
              refine Or.inr ⟨List.cons_ne_nil _ _, ?_⟩
              rw [next, special]
              rfl

/-- **What a step is**: over a plain character, over a stray `&#`, or a move that goes on. -/
theorem Steps.cases (step : p.Steps symbols q) :
    (∃ c rest, p = ⟨none, c :: rest⟩ ∧ isSpecial c = false ∧ symbols = [.char c] ∧
      q = ⟨none, rest⟩) ∨
    (∃ body, p.Stray body ∧ symbols = chars ['&', '#'] ∧ q = ⟨none, body⟩) ∨
    p.rest ≠ [] ∧ ∃ events, symbols = spelling events ∧
      move false p.raw p.rest = .ok (.advance events q.rest q.raw) := by
  rw [Steps] at step
  rcases p.next_eq with ⟨-, waits⟩ | ⟨c, rest, at_plain, plain, taken⟩ | ⟨filled, moves⟩
  · rw [waits] at step
    cases step
  · rw [taken] at step
    cases step
    exact Or.inl ⟨c, rest, at_plain, plain, rfl, rfl⟩
  · right
    rw [moves] at step
    cases moved : move false p.raw p.rest with
    | error e =>
        rw [moved] at step
        cases step
    | ok m =>
        rw [moved] at step
        cases m with
        | advance events rest raw =>
            cases step
            exact Or.inr ⟨filled, events, rfl, rfl⟩
        | halt events rest =>
            -- the one move that ends a pass and reports something stands at a stray
            rcases move_false_halt moved with ⟨rfl, -⟩ | ⟨rfl, stray⟩
            · cases step
            · cases step
              exact Or.inl ⟨rest, stray, rfl, rfl⟩

/-- A reader that waits has no text, or its move ends the pass where it is. -/
theorem Waits.cases (waits : p.Waits) :
    p.rest = [] ∨ p.rest ≠ [] ∧ move false p.raw p.rest = .ok (.halt [] p.rest) := by
  rw [Waits] at waits
  rcases p.next_eq with ⟨empty, -⟩ | ⟨c, rest, -, -, taken⟩ | ⟨filled, moves⟩
  · exact Or.inl empty
  · rw [taken] at waits
    cases waits
  · rw [moves] at waits
    cases moved : move false p.raw p.rest with
    | error e =>
        rw [moved] at waits
        cases waits
    | ok m =>
        rw [moved] at waits
        cases m with
        | advance events rest raw => cases waits
        | halt events rest =>
            rcases move_false_halt moved with ⟨rfl, rfl⟩ | ⟨rfl, -⟩
            · exact Or.inr ⟨filled, rfl⟩
            · cases waits

/-- A reader that cannot go on is stopped by its move. -/
theorem move_of_stops {e : Malformed} (stops : p.next = .error e) :
    p.rest ≠ [] ∧ move false p.raw p.rest = .error e := by
  rcases p.next_eq with ⟨-, waits⟩ | ⟨c, rest, -, -, taken⟩ | ⟨filled, moves⟩
  · rw [waits] at stops
    cases stops
  · rw [taken] at stops
    cases stops
  · rw [moves] at stops
    cases moved : move false p.raw p.rest with
    | ok m =>
        rw [moved] at stops
        cases stops
    | error e' =>
        rw [moved] at stops
        cases stops
        exact ⟨filled, rfl⟩

/-! ## Passes in symbols -/

/-- One pass over the text that is left, in symbols. -/
def pass (closing : Bool) (p : Place) : Except Malformed (List Symbol × Place) :=
  (Markup.pass closing p.raw p.rest).map fun q => (spelling q.events, ⟨q.raw, q.rest⟩)

/-- A reading with symbols before it. -/
def spell (symbols : List Symbol) (read : List Symbol × Place) : List Symbol × Place :=
  (symbols ++ read.1, read.2)

theorem pass_of_move {closing : Bool} {raw raw' : Option RawElement} {s rest : Text}
    {events : List Event} (filled : s ≠ [])
    (h : move closing raw s = .ok (.advance events rest raw')) :
    pass closing ⟨raw, s⟩ = (pass closing ⟨raw', rest⟩).map (spell (spelling events)) := by
  rw [pass, pass, pass_of_advance filled h]
  cases Markup.pass closing raw' rest with
  | error e => rfl
  | ok q =>
      simp only [Except.map, Pass.after, spell, spelling_append]

/-- A plain character is spelled, whether or not the run of plain characters ends with it. -/
theorem pass_plain {closing : Bool} {c : Char} (rest : Text) (plain : isSpecial c = false) :
    pass closing ⟨none, c :: rest⟩ =
      (pass closing ⟨none, rest⟩).map (spell [.char c]) := by
  have first (c : Char) (rest : Text) (plain : isSpecial c = false) :
      move closing none (c :: rest) =
        .ok (.advance [.text (c :: (Text.run (fun c => !isSpecial c) rest).1)]
          (Text.run (fun c => !isSpecial c) rest).2 none) := by
    simp [move, Text.run, plain]
  rw [pass_of_move (List.cons_ne_nil _ _) (first c rest plain)]
  cases rest with
  | nil => rfl
  | cons d rest =>
      cases special : isSpecial d with
      | true => simp [Text.run, special]
      | false =>
          rw [pass_of_move (List.cons_ne_nil _ _) (first d rest special)]
          -- the run that starts at `c` is `c` and the run that starts behind it
          have run : Text.run (fun c => !isSpecial c) (d :: rest) =
              (d :: (Text.run (fun c => !isSpecial c) rest).1,
                (Text.run (fun c => !isSpecial c) rest).2) := by
            simp [Text.run, special]
          rw [run]
          cases pass closing ⟨none, (Text.run (fun c => !isSpecial c) rest).2⟩ with
          | error e => rfl
          | ok q => rfl

/-- **A pass goes on with every step** but the one over a stray `&#`. -/
theorem pass_of_steps (step : p.Steps symbols q) (tidy : ¬ ∃ body, p.Stray body) :
    p.pass closing = (q.pass closing).map (spell symbols) := by
  rcases step.cases with ⟨c, rest, rfl, plain, rfl, rfl⟩ | ⟨body, stray, -⟩ |
    ⟨filled, events, rfl, moved⟩
  · exact pass_plain rest plain
  · exact absurd ⟨body, stray⟩ tidy
  · exact pass_of_move filled (move_of_move_false moved (by simp))

theorem next_of_stray (stray : p.Stray body) :
    p.next = .ok (some (chars ['&', '#'], ⟨none, body⟩)) := by
  obtain ⟨rfl, unread, semicolon⟩ := stray
  have moved : moveReference false ('#' :: body) = .halt [.text ['&', '#']] body := by
    simp [moveReference, unread, semicolon]
  have special : isSpecial '&' = true := by decide
  rw [next, if_pos special]
  simp [move, Text.run, special, moved, Except.map, Move.next?]

/-- **A stray `&#` ends the pass** behind its two characters. -/
theorem pass_of_stray (stray : p.Stray body) :
    p.pass closing = .ok (chars ['&', '#'], ⟨none, body⟩) := by
  obtain ⟨rfl, unread, semicolon⟩ := stray
  have special : isSpecial '&' = true := by decide
  have moved : move closing none ('&' :: '#' :: body) = .ok (.halt [.text ['&', '#']] body) := by
    simp [move, Text.run, special, moveReference, unread, semicolon]
  rw [pass, pass_of_halt (List.cons_ne_nil _ _) moved]
  rfl

theorem pass_of_stops {e : Malformed} (stops : p.next = .error e) : p.pass closing = .error e := by
  obtain ⟨filled, moved⟩ := move_of_stops stops
  rw [pass, pass_of_error filled (move_of_move_false moved (by simp))]
  rfl

/-- A pass that cannot go on leaves everything. -/
theorem pass_of_waits (waits : p.Waits) : p.pass false = .ok ([], p) := by
  rcases waits.cases with empty | ⟨filled, halts⟩
  · rw [pass, empty, pass_nil]
    cases p
    cases empty
    rfl
  · rw [pass, pass_of_halt filled halts]
    rfl

/-! ## The end of the input -/

/-- The symbols of the text that is left behind the last pass. -/
def leftover (p : Place) : List Symbol := if p.raw = none then chars p.rest else []

/-- The symbols at the end of the input. -/
def finish (p : Place) : Except Malformed (List Symbol) :=
  (p.pass true).map fun read => read.1 ++ read.2.leftover

theorem finish_of_steps (step : p.Steps symbols q) (tidy : ¬ ∃ body, p.Stray body) :
    p.finish = q.finish.map (symbols ++ ·) := by
  rw [finish, finish, pass_of_steps step tidy]
  cases q.pass true with
  | error e => rfl
  | ok read => simp [Except.map, spell]

/-- Behind a stray `&#` the end of the input finds text, whatever stands there. -/
theorem finish_of_stray (stray : p.Stray body) :
    p.finish = .ok (chars ['&', '#'] ++ chars body) := by
  rw [finish, pass_of_stray stray]
  rfl

theorem finish_of_stops {e : Malformed} (stops : p.next = .error e) : p.finish = .error e := by
  rw [finish, pass_of_stops stops]
  rfl

/-! ## Every step uses up text -/

theorem length_lt_of_steps (step : p.Steps symbols q) : q.rest.length < p.rest.length := by
  rcases step.cases with ⟨c, rest, rfl, -, -, rfl⟩ | ⟨body, ⟨rfl, -⟩, -, rfl⟩ |
    ⟨-, events, -, moved⟩
  · exact Nat.lt_succ_self _
  · simp only [List.length_cons]
    omega
  · exact move_length_lt moved

/-- **A property that steps hand back holds at every place.** -/
@[elab_as_elim]
theorem induction {motive : Place → Prop} (p : Place)
    (waits : ∀ p : Place, p.Waits → motive p) (stops : ∀ p : Place, p.Stops → motive p)
    (stray : ∀ (p : Place) (body : Text), p.Stray body → motive ⟨none, body⟩ → motive p)
    (steps : ∀ (p q : Place) (symbols : List Symbol), p.Steps symbols q →
      (¬ ∃ body, p.Stray body) → motive q → motive p) : motive p := by
  generalize size : p.rest.length = n
  -- on the length of the text that is left, which every step makes shorter
  induction n using Nat.strongRecOn generalizing p with
  | ind n ih =>
      subst size
      cases onward : p.next with
      | error e => exact stops p ⟨e, onward⟩
      | ok read =>
          cases read with
          | none => exact waits p onward
          | some read =>
              obtain ⟨symbols, q⟩ := read
              by_cases tidy : ∃ body, p.Stray body
              · obtain ⟨body, at_stray⟩ := tidy
                have shorter := length_lt_of_steps (next_of_stray at_stray)
                exact stray p body at_stray (ih _ shorter ⟨none, body⟩ rfl)
              · exact steps p q symbols onward tidy (ih _ (length_lt_of_steps onward) q rfl)

end Place

end PageAssembly.Markup
