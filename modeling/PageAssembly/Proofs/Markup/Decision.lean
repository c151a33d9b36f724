import PageAssembly.Proofs.Markup.Reading
import PageAssembly.Proofs.Markup.TagExtension

/-!
# Decisions taken too early

Nearly every step of a reading is taken with the end of its construct in view and stands, whatever
text follows.  Two kinds of steps need not stand: a start tag, whose quotes more text may close, and
a named reference that runs to the end of the text, of which the reader takes the part in front of
its last hyphen or full stop.

## Main definitions

* `Place.Firm` — a step that stands whatever follows
* `Markup.Apart` — symbols that differ at some position

## Main statements

* `Place.Steps.firm_or` — a step is firm, or is over a start tag, or over a reference at the end
* `Place.Steps.stands_or_apart` — a step stands with more text, or what the reader spells with more
  text differs from what it spelled
* `Place.Steps.not_waits_between` — a step that stands with more text is not taken back in between
* `Place.firm_of_unquoted`, `Place.Stops.extend` — without references and quotes nothing is decided
  too early
-/

namespace PageAssembly.Markup

/-! ## The steps of a place -/

namespace Place

theorem next_special {c : Char} (special : isSpecial c = true) (s : Text) :
    next ⟨none, c :: s⟩ = (move false none (c :: s)).map Move.next? := by
  rw [next, if_pos special]

theorem next_markup (s : Text) :
    next ⟨none, '<' :: s⟩ = (moveMarkup false s).map Move.next? := by
  rw [next_special (by decide)]
  rfl

theorem next_reference (s : Text) :
    next ⟨none, '&' :: s⟩ = .ok (moveReference false s).next? := by
  rw [next_special (by decide)]
  rfl

theorem next_raw {element : RawElement} {s : Text} (filled : s ≠ []) :
    next ⟨some element, s⟩ = .ok (moveRaw element s).next? := by
  cases s with
  | nil => exact absurd rfl filled
  | cons c s => rfl

/-- **A step that stands**, whatever text follows. -/
def Firm (p : Place) (symbols : List Symbol) (q : Place) : Prop :=
  ∀ more, (p.extend more).Steps symbols (q.extend more)

end Place

/-! ## Start tags -/

/-- The raw element behind a token: a start tag may open one. -/
def rawBehind (token : Token) : Option RawElement :=
  if token.kind = .startTag then token.tag.bind RawElement.ofName? else none

theorem ofName?_of_void {name : Text} (h : name ∈ voidElements) :
    RawElement.ofName? name = none := by
  revert name
  decide

theorem opensRaw?_eq (name written : Text) (selfClosing : Bool) : opensRaw? name selfClosing =
    rawBehind { kind := startKind name selfClosing, text := written, tag := some name } := by
  cases selfClosing with
  | true => rfl
  | false =>
      by_cases void : name ∈ voidElements
      · simp [opensRaw?, rawBehind, startKind, void, ofName?_of_void void]
      · simp [opensRaw?, rawBehind, startKind, void]

/-- What the move over a tag reports is the tag as it is written. -/
theorem exists_token_of_moveTag {tag : StartTag} {selfClosing : Bool} {tail rest : Text}
    {events : List Event} {raw : Option RawElement}
    (h : moveTag tag selfClosing tail = .ok (.advance events rest raw)) :
    ∃ token, events = [.mark token] ∧ rest = tail ∧ raw = rawBehind token ∧
      token.text = tag.written ++ if selfClosing then ['/', '>'] else ['>'] := by
  simp only [moveTag] at h
  split at h
  · cases h
  · cases h
    exact ⟨_, rfl, rfl, by rw [opensRaw?_eq], rfl⟩

theorem moveTag_append {tag : StartTag} {selfClosing : Bool} {rest rest' : Text}
    {events : List Event} {raw : Option RawElement} (more : Text)
    (h : moveTag tag selfClosing rest = .ok (.advance events rest' raw)) :
    moveTag tag selfClosing (rest ++ more) = .ok (.advance events (rest' ++ more) raw) := by
  simp only [moveTag] at h ⊢
  split at h
  · cases h
  · cases h
    rfl

/-- A tag that is read as before is finished as before. -/
theorem moveStartTag_append {s rest more : Text} {events : List Event} {raw : Option RawElement}
    (same : StartTag.read (s ++ more) = ((StartTag.read s).1, (StartTag.read s).2 ++ more))
    (h : moveStartTag false s = .ok (.advance events rest raw)) :
    moveStartTag false (s ++ more) = .ok (.advance events (rest ++ more) raw) := by
  simp only [moveStartTag, same] at h ⊢
  cases ending : StartTag.ending (StartTag.read s).2 with
  | plain tail =>
      rw [ending] at h
      rw [StartTag.ending_plain ending]
      exact moveTag_append more h
  | selfClosing tail =>
      rw [ending] at h
      rw [StartTag.ending_selfClosing ending]
      exact moveTag_append more h
  | unfinished =>
      rw [ending] at h
      cases h
  | broken =>
      rw [ending] at h
      cases h
      rw [StartTag.ending_append_of_broken more ending]

theorem moveTag_append_error {tag : StartTag} {selfClosing : Bool} {rest : Text} {e : Malformed}
    (more : Text) (h : moveTag tag selfClosing rest = .error e) :
    moveTag tag selfClosing (rest ++ more) = .error e := by
  simp only [moveTag] at h ⊢
  split at h
  · exact h
  · cases h

/-- A tag without quotes that stops the reader stops it with more text as well. -/
theorem moveStartTag_append_error {s : Text} {e : Malformed} (more : Text)
    (unquoted : ¬ HasQuote s) (h : moveStartTag false s = .error e) :
    moveStartTag false (s ++ more) = .error e := by
  have same (filled : (StartTag.read s).2 ≠ []) : StartTag.read (s ++ more) =
      ((StartTag.read s).1, (StartTag.read s).2 ++ more) :=
    (StartTag.read_append more filled).resolve_right fun onward => unquoted onward.1
  simp only [moveStartTag] at h ⊢
  cases ending : StartTag.ending (StartTag.read s).2 with
  | plain tail =>
      have left := StartTag.ending_plain ending
      rw [ending] at h
      rw [same (left ▸ List.cons_ne_nil _ _), left]
      exact moveTag_append_error more h
  | selfClosing tail =>
      have left := StartTag.ending_selfClosing ending
      rw [ending] at h
      rw [same (left ▸ List.cons_ne_nil _ _), left]
      exact moveTag_append_error more h
  | unfinished =>
      rw [ending] at h
      cases h
  | broken =>
      rw [ending] at h
      cases h

namespace Place

theorem move_startTag {c : Char} (letter : Text.isLetter c = true) (closing : Bool) (s : Text) :
    move closing none ('<' :: c :: s) = moveStartTag closing (c :: s) := by
  have markup : move closing none ('<' :: c :: s) = moveMarkup closing (c :: s) := rfl
  rw [markup, moveMarkup, if_pos letter]

/-- A step at the name of a tag is the move over the tag. -/
theorem exists_moveStartTag {c : Char} {s : Text} {symbols : List Symbol} {q : Place}
    (letter : Text.isLetter c = true) (step : (⟨none, '<' :: c :: s⟩ : Place).Steps symbols q) :
    ∃ events, symbols = spelling events ∧
      moveStartTag false (c :: s) = .ok (.advance events q.rest q.raw) := by
  rcases step.cases with ⟨_, _, at_plain, plain, -⟩ | ⟨_, ⟨stray, -⟩, -⟩ |
    ⟨-, events, spelled, moved⟩
  · cases at_plain
    cases plain
  · cases stray
  · rw [move_startTag letter] at moved
    exact ⟨events, spelled, moved⟩

/-- **A step over a start tag** reports the tag, or the text of a broken one. -/
theorem steps_startTag {c : Char} {s : Text} {symbols : List Symbol} {q : Place}
    (letter : Text.isLetter c = true) (step : (⟨none, '<' :: c :: s⟩ : Place).Steps symbols q) :
    (∃ token, symbols = [.token token] ∧ '<' :: c :: s = token.text ++ q.rest ∧
        q.raw = rawBehind token ∧ q.rest.length < (StartTag.read (c :: s)).2.length) ∨
      StartTag.ending (StartTag.read (c :: s)).2 = .broken ∧
        symbols = chars (StartTag.read (c :: s)).1.written := by
  have written := StartTag.read_written (c :: s)
  obtain ⟨events, rfl, moved⟩ := exists_moveStartTag letter step
  simp only [moveStartTag] at moved
  cases ending : StartTag.ending (StartTag.read (c :: s)).2 with
  | plain tail =>
      rw [ending] at moved
      have left := StartTag.ending_plain ending
      obtain ⟨token, rfl, rest, raw, text⟩ := exists_token_of_moveTag moved
      refine Or.inl ⟨token, rfl, ?_, raw, ?_⟩
      · rw [text, rest, ← written, left]
        simp
      · rw [rest, left]
        exact Nat.lt_succ_self _
  | selfClosing tail =>
      rw [ending] at moved
      have left := StartTag.ending_selfClosing ending
      obtain ⟨token, rfl, rest, raw, text⟩ := exists_token_of_moveTag moved
      refine Or.inl ⟨token, rfl, ?_, raw, ?_⟩
      · rw [text, rest, ← written, left]
        simp
      · rw [rest, left]
        simp only [List.length_cons]
        omega
  | unfinished =>
      rw [ending] at moved
      cases moved
  | broken =>
      rw [ending] at moved
      obtain ⟨rfl, -⟩ := Move.advance.inj (Except.ok.inj moved)
      exact Or.inr ⟨rfl, by simp⟩

theorem next_startTag {c : Char} (letter : Text.isLetter c = true) (s : Text) :
    next ⟨none, '<' :: c :: s⟩ = (moveStartTag false (c :: s)).map Move.next? := by
  rw [next_special (by decide), move_startTag letter]

/-- A tag that is read as before is stepped over as before. -/
theorem steps_startTag_append {c : Char} {s more : Text} {symbols : List Symbol} {q : Place}
    (letter : Text.isLetter c = true)
    (same : StartTag.read (c :: s ++ more) =
      ((StartTag.read (c :: s)).1, (StartTag.read (c :: s)).2 ++ more))
    (step : (⟨none, '<' :: c :: s⟩ : Place).Steps symbols q) :
    (extend ⟨none, '<' :: c :: s⟩ more).Steps symbols (q.extend more) := by
  obtain ⟨events, rfl, moved⟩ := exists_moveStartTag letter step
  have longer := moveStartTag_append same moved
  rw [List.cons_append] at longer
  rw [Steps, extend_mk, List.cons_append, List.cons_append, next_startTag letter, longer]
  rfl

end Place

/-! ## Named references -/

theorem readEntity?_append {s name rest : Text} (more : Text)
    (inView : (Text.run isEntityName s).2 ≠ []) (h : readEntity? s = some (name, rest)) :
    readEntity? (s ++ more) = some (name, rest ++ more) := by
  have ends : (!(Text.run isEntityName s).2.isEmpty) = true := by simpa using inView
  have ends' : (!((Text.run isEntityName s).2 ++ more).isEmpty) = true := by simp [inView]
  simp only [readEntity?] at h
  rw [if_pos ends] at h
  cases h
  simp only [readEntity?, Text.run_append more inView]
  rw [if_pos ends', dropSemicolon_append more inView]

/-- **A reference at the end of the text**: a name up to the last mark that can end it, and the mark
with what follows it. -/
structure AtEnd (s before : Text) (mark : Char) (tail : Text) : Prop where
  /-- The name, the mark and what follows are all there is. -/
  split : s = before ++ mark :: tail
  /-- All of it could belong to one name. -/
  name : ∀ c ∈ s, isEntityName c = true
  /-- The mark can end a name. -/
  ends : endsEntity mark = true
  /-- It is the last such mark. -/
  last : ∀ c ∈ tail, endsEntity c = false

theorem run_eq_nil_iff {p : Char → Bool} {s : Text} :
    (Text.run p s).2 = [] ↔ ∀ c ∈ s, p c = true :=
  List.dropWhile_eq_nil_iff

theorem atEnd_of_readEntity? {s name rest : Text} (toEnd : (Text.run isEntityName s).2 = [])
    (h : readEntity? s = some (name, rest)) :
    ∃ mark tail, rest = mark :: tail ∧ AtEnd s name mark tail := by
  have whole : (Text.run isEntityName s).1 = s := by
    have written := Text.run_written isEntityName s
    rwa [toEnd, List.append_nil] at written
  simp only [readEntity?, toEnd, whole, List.isEmpty_nil, Bool.not_true, Bool.false_eq_true,
    if_false] at h
  have written := Text.run_written (fun c => !endsEntity c) s.reverse
  split at h
  · cases h
  · next mark before split =>
      cases h
      rw [split] at written
      refine ⟨mark, _, rfl, ?_, run_eq_nil_iff.mp toEnd, ?_, ?_⟩
      · have forth := congrArg List.reverse written
        rw [List.reverse_reverse] at forth
        refine forth.symm.trans ?_
        simp
      · simpa using run_stop split
      · intro c inside
        simpa using List.mem_takeWhile_imp (List.mem_reverse.mp inside)

theorem exists_readEntity? {s : Text} {mark : Char} (inside : mark ∈ s)
    (ends : endsEntity mark = true) (toEnd : (Text.run isEntityName s).2 = []) :
    ∃ name rest, readEntity? s = some (name, rest) := by
  have whole : (Text.run isEntityName s).1 = s := by
    have written := Text.run_written isEntityName s
    rwa [toEnd, List.append_nil] at written
  simp only [readEntity?, toEnd, whole, List.isEmpty_nil, Bool.not_true, Bool.false_eq_true,
    if_false]
  split
  · next none =>
      have plain := run_eq_nil_iff.mp none mark (List.mem_reverse.mpr inside)
      rw [ends] at plain
      cases plain
  · exact ⟨_, _, rfl⟩

/-- **More text behind a reference at the end**: the name stays as it was, or it goes on over the
mark. -/
theorem AtEnd.exists_readEntity? {s before tail : Text} {mark : Char} (h : AtEnd s before mark tail)
    (more : Text) : readEntity? (s ++ more) = some (before, mark :: tail ++ more) ∨
      ∃ further rest, readEntity? (s ++ more) = some (before ++ mark :: further, rest) := by
  by_cases toEnd : (Text.run isEntityName (s ++ more)).2 = []
  · have inside : mark ∈ s ++ more := by
      rw [h.split]
      simp
    obtain ⟨name, rest, read⟩ := Markup.exists_readEntity? inside h.ends toEnd
    obtain ⟨mark', tail', rfl, atEnd⟩ := atEnd_of_readEntity? toEnd read
    -- both marks are the last of their texts, so the second stands no earlier than the first
    have same := atEnd.split
    rw [h.split, List.append_assoc, List.append_eq_append_iff] at same
    rcases same with ⟨between, rfl, same⟩ | ⟨between, rfl, same⟩
    · cases between with
      | nil =>
          left
          rw [List.nil_append] at same
          rw [read, List.append_nil, ← same]
      | cons c between =>
          right
          obtain ⟨rfl, -⟩ := List.cons.inj same
          exact ⟨between, _, read⟩
    · cases between with
      | nil =>
          left
          rw [List.append_nil] at h
          rw [read, same, List.append_nil]
          rfl
      | cons c between =>
          obtain ⟨-, later⟩ := List.cons.inj same
          have plain := atEnd.last mark (by rw [later]; simp)
          rw [h.ends] at plain
          cases plain
  · right
    have name : (Text.run isEntityName (s ++ more)).1 = s ++ (Text.run isEntityName more).1 :=
      List.takeWhile_append_of_pos h.name
    have ends : (!(Text.run isEntityName (s ++ more)).2.isEmpty) = true := by simpa using toEnd
    refine ⟨tail ++ (Text.run isEntityName more).1,
      dropSemicolon (Text.run isEntityName (s ++ more)).2, ?_⟩
    simp only [readEntity?]
    rw [if_pos ends, name, h.split]
    simp

/-! ## Steps that stand -/

namespace Place

variable {p q : Place} {symbols : List Symbol}

theorem firm_of_raw {element : RawElement} {s : Text}
    (step : (⟨some element, s⟩ : Place).Steps symbols q) :
    Firm ⟨some element, s⟩ symbols q := by
  rcases step.cases with ⟨_, _, none, -⟩ | ⟨_, ⟨none, -⟩, -⟩ | ⟨filled, events, rfl, moved⟩
  · cases none
  · cases none
  · intro more
    have raw : moveRaw element s = .advance events q.rest q.raw := Except.ok.inj moved
    rw [extend_mk, Steps, next_raw (List.append_ne_nil_of_left_ne_nil filled more),
      moveRaw_append more raw]
    rfl

theorem firm_of_markup {c : Char} {s : Text} (name : Text.isLetter c = false)
    (step : (⟨none, '<' :: c :: s⟩ : Place).Steps symbols q) :
    Firm ⟨none, '<' :: c :: s⟩ symbols q := by
  rcases step.cases with ⟨_, _, same, plain, -⟩ | ⟨_, ⟨same, -⟩, -⟩ | ⟨-, events, rfl, moved⟩
  · cases same
    cases plain
  · cases same
  · intro more
    have markup : moveMarkup false (c :: s) = .ok (.advance events q.rest q.raw) := moved
    rw [extend_mk, List.cons_append, List.cons_append, Steps, next_markup,
      moveMarkup_append more name markup]
    rfl

theorem firm_of_numeric {body : Text}
    (step : (⟨none, '&' :: '#' :: body⟩ : Place).Steps symbols q) :
    Firm ⟨none, '&' :: '#' :: body⟩ symbols q := by
  intro more
  rw [Steps, next_reference] at step
  rw [Steps, extend_mk, List.cons_append, List.cons_append, next_reference]
  cases read : readCharacterReference? body with
  | some found =>
      obtain ⟨number, rest⟩ := found
      simp only [moveReference, read] at step
      simp only [moveReference, readCharacterReference?_append more read]
      cases step
      rfl
  | none =>
      by_cases semicolon : ';' ∈ body
      · have longer := readCharacterReference?_append_eq_none more semicolon read
        have semicolon' : ';' ∈ body ++ more := List.mem_append_left _ semicolon
        simp only [moveReference, read, List.elem_iff.mpr semicolon, if_true] at step
        simp only [moveReference, longer, List.elem_iff.mpr semicolon', if_true]
        cases step
        rfl
      · have none : ¬ body.elem ';' = true := by simpa using semicolon
        simp only [moveReference, read, if_neg none] at step
        cases step

/-- A move at a reference that is not numeric. -/
theorem moveReference_named {c : Char} (hash : c ≠ '#') (s : Text) :
    moveReference false (c :: s) =
      if Text.isLetter c then
        match readEntity? (c :: s) with
        | some (name, rest) => .advance [.text ('&' :: name ++ [';'])] rest none
        | none => .halt [] ('&' :: c :: s)
      else .advance [.text ['&']] (c :: s) none := by
  unfold moveReference
  split
  · next empty => cases empty
  · next same => exact absurd (List.cons.inj same).1 hash
  · next c' body _ same =>
      obtain ⟨rfl, rfl⟩ := List.cons.inj same
      split
      · cases readEntity? (c :: s) <;> rfl
      · rfl

/-- What a reference at the end of the text gives: the name up to the mark. -/
def EarlyReference (p : Place) (symbols : List Symbol) (q : Place) : Prop :=
  ∃ c s before mark tail, p = ⟨none, '&' :: c :: s⟩ ∧ c ≠ '#' ∧ Text.isLetter c = true ∧
    AtEnd (c :: s) before mark tail ∧ symbols = chars ('&' :: before ++ [';']) ∧
      q = ⟨none, mark :: tail⟩

theorem firm_or_early_of_named {c : Char} {s : Text} (hash : c ≠ '#')
    (step : (⟨none, '&' :: c :: s⟩ : Place).Steps symbols q) :
    Firm ⟨none, '&' :: c :: s⟩ symbols q ∨ EarlyReference ⟨none, '&' :: c :: s⟩ symbols q := by
  rw [Steps, next_reference, moveReference_named hash] at step
  cases letter : Text.isLetter c with
  | false =>
      left
      intro more
      rw [if_neg (by rw [letter]; decide)] at step
      cases step
      rw [Steps, extend_mk, List.cons_append, List.cons_append, next_reference,
        moveReference_named hash, if_neg (by rw [letter]; decide)]
      rfl
  | true =>
      rw [if_pos letter] at step
      cases read : readEntity? (c :: s) with
      | none =>
          rw [read] at step
          cases step
      | some found =>
          obtain ⟨name, rest⟩ := found
          rw [read] at step
          cases step
          by_cases toEnd : (Text.run isEntityName (c :: s)).2 = []
          · obtain ⟨mark, tail, rfl, atEnd⟩ := atEnd_of_readEntity? toEnd read
            exact Or.inr ⟨c, s, name, mark, tail, rfl, hash, letter, atEnd, by simp, rfl⟩
          · left
            intro more
            have longer := readEntity?_append more toEnd read
            rw [List.cons_append] at longer
            rw [Steps, extend_mk, List.cons_append, List.cons_append, next_reference,
              moveReference_named hash, if_pos letter, longer]
            rfl

/-- **Which steps stand**: all but those over start tags and over references at the end. -/
theorem Steps.firm_or (step : p.Steps symbols q) : p.Firm symbols q ∨
    (∃ c s, p = ⟨none, '<' :: c :: s⟩ ∧ Text.isLetter c = true) ∨ EarlyReference p symbols q := by
  obtain ⟨raw, rest⟩ := p
  cases raw with
  | some element => exact Or.inl (firm_of_raw step)
  | none =>
      cases rest with
      | nil => cases step
      | cons c rest =>
          by_cases special : isSpecial c = true
          · simp only [isSpecial, Bool.or_eq_true, beq_iff_eq] at special
            cases rest with
            | nil => rcases special with rfl | rfl <;> cases step
            | cons d rest =>
                rcases special with rfl | rfl
                · cases letter : Text.isLetter d with
                  | true => exact Or.inr (Or.inl ⟨d, rest, rfl, letter⟩)
                  | false => exact Or.inl (firm_of_markup letter step)
                · by_cases hash : d = '#'
                  · subst hash
                    exact Or.inl (firm_of_numeric step)
                  · exact (firm_or_early_of_named hash step).imp id Or.inr
          · left
            intro more
            rw [Steps, next, if_neg special] at step
            cases step
            rw [Steps, extend_mk, List.cons_append, next, if_neg special]
            rfl

/-! ## Texts without references and quotes -/

/-- A start tag that is stepped over has something behind its attributes. -/
theorem read_ne_nil_of_steps {c : Char} {s : Text} (letter : Text.isLetter c = true)
    (step : (⟨none, '<' :: c :: s⟩ : Place).Steps symbols q) : (StartTag.read (c :: s)).2 ≠ [] := by
  intro empty
  rcases steps_startTag letter step with ⟨token, -, -, -, short⟩ | ⟨broken, -⟩
  · rw [empty] at short
    exact absurd short (Nat.not_lt_zero _)
  · exact StartTag.ne_nil_of_broken broken empty

/-- Without references and quotes every step is firm. -/
theorem firm_of_unquoted (step : p.Steps symbols q) (unreferenced : '&' ∉ p.rest)
    (unquoted : ¬ HasQuote p.rest) : p.Firm symbols q := by
  rcases step.firm_or with firm | ⟨c, s, rfl, letter⟩ | ⟨c, s, before, mark, tail, rfl, -⟩
  · exact firm
  · intro more
    have same := (StartTag.read_append more (read_ne_nil_of_steps letter step)).resolve_right
      fun onward => unquoted (onward.1.mono (List.subset_cons_self '<' _))
    exact steps_startTag_append letter same step
  · exact absurd List.mem_cons_self unreferenced

/-- Without quotes a reader that stops does so with more text as well. -/
theorem Stops.extend (stops : p.Stops) (unquoted : ¬ HasQuote p.rest) (more : Text) :
    (p.extend more).Stops := by
  obtain ⟨e, stopped⟩ := stops
  obtain ⟨filled, moved⟩ := move_of_stops stopped
  obtain ⟨raw, rest⟩ := p
  cases raw with
  | some element => cases moved
  | none =>
      simp only [move] at moved
      split at moved
      · cases moved
      · split at moved
        · next s _ =>
            cases s with
            | nil => cases moved
            | cons c s =>
                cases letter : Text.isLetter c with
                | true =>
                    rw [moveMarkup, if_pos letter] at moved
                    have longer := moveStartTag_append_error more
                      (fun quote => unquoted (quote.mono (List.subset_cons_self '<' _))) moved
                    rw [List.cons_append] at longer
                    refine ⟨e, ?_⟩
                    rw [extend_mk, List.cons_append, List.cons_append, next_startTag letter, longer]
                    rfl
                | false =>
                    obtain ⟨e', longer⟩ := moveMarkup_append_error more letter moved
                    refine ⟨e', ?_⟩
                    rw [extend_mk, List.cons_append, List.cons_append, next_markup, longer]
                    rfl
        · cases moved
        · cases moved

end Place

/-! ## Steps that do not stand -/

/-- **Symbols that differ at some position**, whatever follows them. -/
def Apart (first later : List Symbol) : Prop :=
  ∃ common a b as bs, a ≠ b ∧ first = common ++ a :: as ∧ later = common ++ b :: bs

theorem Apart.append_ne {first later : List Symbol} (apart : Apart first later)
    (x y : List Symbol) : first ++ x ≠ later ++ y := by
  obtain ⟨common, a, b, as, bs, differ, rfl, rfl⟩ := apart
  intro same
  rw [List.append_assoc, List.append_assoc, List.append_cancel_left_eq] at same
  exact differ (List.cons.inj same).1

theorem exists_abandon (s : Text) : ∃ t, (abandon s).1 = '<' :: t := by
  unfold abandon
  split
  · exact ⟨_, rfl⟩
  · split <;> exact ⟨_, rfl⟩

namespace Place

variable {p q : Place} {symbols : List Symbol}

theorem ending_of_moveStartTag {s rest : Text} {events : List Event}
    (h : moveStartTag false s = .ok (.halt events rest)) :
    StartTag.ending (StartTag.read s).2 = .unfinished := by
  simp only [moveStartTag] at h
  split at h
  · exact absurd h moveTag_ne_halt
  · exact absurd h moveTag_ne_halt
  · cases h
  · assumption

/-- A start tag that is cut off becomes text at the end of the input. -/
theorem finish_of_waits_startTag {c : Char} {s : Text} {last : List Symbol}
    (letter : Text.isLetter c = true) (waits : (⟨none, '<' :: c :: s⟩ : Place).Waits)
    (h : (⟨none, '<' :: c :: s⟩ : Place).finish = .ok last) : ∃ rest, last = .char '<' :: rest := by
  have halts := (waits.cases.resolve_left (List.cons_ne_nil _ _)).2
  rw [move_startTag letter] at halts
  have abandoned : move true none ('<' :: c :: s) =
      .ok (.advance [.text (abandon (c :: s)).1] (abandon (c :: s)).2 none) := by
    simp only [move_startTag letter, moveStartTag, ending_of_moveStartTag halts]
    rfl
  obtain ⟨t, first⟩ := exists_abandon (c :: s)
  rw [finish, pass_of_move (List.cons_ne_nil _ _) abandoned, spelling_text, first] at h
  obtain ⟨read, later, rfl⟩ := exists_of_map_ok h
  obtain ⟨q, -, rfl⟩ := exists_of_map_ok later
  exact ⟨_, rfl⟩

theorem EarlyReference.stands_or_apart (early : EarlyReference p symbols q) (more : Text) :
    (p.extend more).Steps symbols (q.extend more) ∨
      ∃ other q', (p.extend more).Steps other q' ∧ Apart symbols other := by
  obtain ⟨c, s, before, mark, tail, rfl, hash, letter, atEnd, rfl, rfl⟩ := early
  have steps {name rest : Text} (read : readEntity? (c :: s ++ more) = some (name, rest)) :
      (extend ⟨none, '&' :: c :: s⟩ more).Steps (chars ('&' :: name ++ [';'])) ⟨none, rest⟩ := by
    rw [List.cons_append] at read
    rw [Steps, extend_mk, List.cons_append, List.cons_append, next_reference,
      moveReference_named hash, if_pos letter, read]
    simp [Move.next?]
  -- a name that goes on has the mark where the early one has its semicolon
  rcases atEnd.exists_readEntity? more with same | ⟨further, rest, longer⟩
  · exact Or.inl (steps same)
  · refine Or.inr ⟨_, _, steps longer, chars ('&' :: before), .char ';', .char mark, [],
      chars (further ++ [';']), ?_, by simp, by simp⟩
    rintro same
    cases same
    have ends := atEnd.ends
    revert ends
    decide

theorem startTag_stands_or_apart {c : Char} {s : Text} (letter : Text.isLetter c = true)
    (step : (⟨none, '<' :: c :: s⟩ : Place).Steps symbols q) (more : Text) :
    (extend ⟨none, '<' :: c :: s⟩ more).Steps symbols (q.extend more) ∨
      (extend ⟨none, '<' :: c :: s⟩ more).Stops ∨
        (∃ other q', (extend ⟨none, '<' :: c :: s⟩ more).Steps other q' ∧ Apart symbols other) ∨
          (extend ⟨none, '<' :: c :: s⟩ more).Waits ∧
            ∀ last, (extend ⟨none, '<' :: c :: s⟩ more).finish = .ok last → Apart symbols last := by
  rcases steps_startTag letter step with ⟨token, rfl, written, raw, -⟩ | ⟨broken, -⟩
  · rw [extend_mk, List.cons_append, List.cons_append]
    cases onward : next ⟨none, '<' :: c :: (s ++ more)⟩ with
    | error e => exact Or.inr (Or.inl ⟨e, onward⟩)
    | ok read =>
        cases read with
        | none =>
            refine Or.inr (Or.inr (Or.inr ⟨onward, fun last finished => ?_⟩))
            obtain ⟨rest, rfl⟩ := finish_of_waits_startTag letter onward finished
            exact ⟨[], .token token, .char '<', [], rest, by simp, rfl, rfl⟩
        | some read =>
            obtain ⟨other, q'⟩ := read
            rcases steps_startTag letter onward with ⟨token', rfl, written', raw', -⟩ | ⟨-, rfl⟩
            · by_cases same : token = token'
              · left
                subst same
                -- a tag with the same text leaves the same rest
                have both : token.text ++ q'.rest = token.text ++ (q.rest ++ more) := by
                  rw [← written', ← List.append_assoc, ← written]
                  rfl
                have place : q' = q.extend more := by
                  rw [List.append_cancel_left_eq] at both
                  rw [← raw] at raw'
                  cases q'
                  cases both
                  cases raw'
                  rfl
                rw [← place]
                exact onward
              · refine Or.inr (Or.inr (Or.inl ⟨_, q', onward, ?_⟩))
                exact ⟨[], .token token, .token token', [], [], by simpa using same, rfl, rfl⟩
            · refine Or.inr (Or.inr (Or.inl ⟨_, q', onward, ?_⟩))
              exact ⟨[], .token token, .char '<', [], _, by simp, rfl, rfl⟩
  · exact Or.inl (steps_startTag_append letter (StartTag.read_append_of_broken more broken) step)

/-- **A step stands with more text, or the symbols come apart**: what the reader spells with more
text in view differs from what it spelled. -/
theorem Steps.stands_or_apart (step : p.Steps symbols q) (more : Text) :
    (p.extend more).Steps symbols (q.extend more) ∨ (p.extend more).Stops ∨
      (∃ other q', (p.extend more).Steps other q' ∧ Apart symbols other) ∨
        (p.extend more).Waits ∧
          ∀ last, (p.extend more).finish = .ok last → Apart symbols last := by
  rcases step.firm_or with firm | ⟨c, s, rfl, letter⟩ | early
  · exact Or.inl (firm more)
  · exact startTag_stands_or_apart letter step more
  · exact (early.stands_or_apart more).imp id fun apart => Or.inr (Or.inl apart)

/-- **A step that stands is not taken back in between**: where a start tag goes on into some text,
it stays longer than that text whatever follows. -/
theorem Steps.not_waits_between (step : p.Steps symbols q) {more later : Text}
    (stands : (p.extend (more ++ later)).Steps symbols (q.extend (more ++ later))) :
    ¬ (p.extend more).Waits := by
  rcases step.firm_or with firm | ⟨c, s, rfl, letter⟩ | early
  · exact fun waits => (firm more).not_waits waits
  · rcases steps_startTag letter step with ⟨token, rfl, -, -, -⟩ | ⟨broken, -⟩
    · rcases StartTag.read_append more (read_ne_nil_of_steps letter step) with
        same | ⟨-, onward⟩
      · exact fun waits => (steps_startTag_append letter same step).not_waits waits
      -- the tag that went on leaves at most what follows, but the step over it leaves more
      · rw [extend_mk, List.cons_append, List.cons_append] at stands
        rcases steps_startTag letter stands with ⟨token', -, -, -, short'⟩ | ⟨-, text⟩
        · have long := onward later
          rw [List.append_assoc] at long
          rw [List.cons_append] at long
          simp only [extend, List.length_append] at short' long
          omega
        · cases text
    · have same := steps_startTag_append letter (StartTag.read_append_of_broken more broken) step
      exact fun waits => same.not_waits waits
  · rcases early.stands_or_apart more with same | ⟨other, q', onward, -⟩
    · exact fun waits => same.not_waits waits
    · exact fun waits => onward.not_waits waits

end Place

end PageAssembly.Markup
