import PageAssembly.Proofs.Markup.Ampersand
import PageAssembly.Proofs.Markup.Chunking
import PageAssembly.Proofs.Markup.Ending

/-!
# References in text

Text without tags is one text token.  The token differs from the text by semicolons behind names of
references, and by a lost ampersand in front of a last letter; where neither can happen, every way
to cut the text gives the text itself.

## Main definitions

* `Markup.Kept` — a text with semicolons behind names of references, and without an ampersand in
  front of a last letter
* `Markup.Clear` — a reader passes every ampersand of a text in front of what is in view
* `Markup.Taken` — what a step takes and spells
* `Markup.Intact` — every reference that a reader meets ends with a semicolon, and it meets no
  ampersand in front of a last letter
* `Markup.WellReferenced` — references end with semicolons, and no name starts behind any other
  ampersand

## Main statements

* `Place.Steps.exists_taken` — what a step takes and spells
* `Place.exists_readFrom` — what all chunks give
* `Alike.intact`, `WellReferenced.intact` — which texts are intact
* `Markup.tokenize_references` — text without tags is one token that keeps it, and it is the text
  itself for all ways to cut it exactly when the text is intact

### Which references a reader meets

An `&#` that starts no reference is waited at until a semicolon comes into view.  What a reader
meets behind it therefore depends on what is in view, and a reference that would be taken too early
may be met too late for that.
-/

namespace PageAssembly.Markup

variable {s t done rest more body name front back : Text} {p q r : Place}
  {symbols later : List Symbol}

/-! ## What becomes of a text -/

/-- **A text as it is reported**: the name of a reference may get a semicolon, and an ampersand in
front of a last letter may get lost. -/
inductive Kept : Text → Text → Prop
  /-- Nothing is reported as nothing. -/
  | nil : Kept [] []
  /-- A character is reported as it is. -/
  | char {s t : Text} (c : Char) : Kept s t → Kept (c :: s) (c :: t)
  /-- A reference without a semicolon gets one. -/
  | closed {name s t : Text} {c : Char} : IsReferenceName name → c ≠ ';' → Kept (c :: s) t →
    Kept ('&' :: name ++ c :: s) ('&' :: name ++ ';' :: t)
  /-- An ampersand in front of a last letter gets lost. -/
  | lost {c : Char} : Text.isLetter c = true → Kept ['&', c] [c]

theorem Kept.append (front : Text) (kept : Kept s t) : Kept (front ++ s) (front ++ t) := by
  induction front with
  | nil => exact kept
  | cons c front ih => exact .char c ih

theorem Kept.refl (s : Text) : Kept s s := by
  have kept := Kept.nil.append s
  rwa [List.append_nil] at kept

/-! ## What a reader meets -/

/-- **A reader passes every ampersand** of a text that is followed by what else is in view. -/
def Clear (done rest : Text) : Prop :=
  ∀ front back, done = front ++ '&' :: back → Passed (back ++ rest)

/-- **A text whose references are reported as they are written**: a reader that has some start of it
in view meets no reference without a semicolon, and at its end no ampersand in front of a last
letter. -/
structure Intact (s : Text) : Prop where
  /-- Every reference that is met ends with a semicolon. -/
  terminated : ∀ front body unseen, s = front ++ '&' :: body ++ unseen →
    Clear front ('&' :: body) → Terminated body
  /-- No ampersand in front of a last letter is met. -/
  last : ∀ front c, s = front ++ ['&', c] → Clear front ['&', c] → Text.isLetter c = false

theorem clear_nil (rest : Text) : Clear [] rest := by
  intro front back split
  exact absurd split.symm (List.append_ne_nil_of_right_ne_nil _ (List.cons_ne_nil _ _))

theorem Clear.extend (clear : Clear done rest) (more : Text) : Clear done (rest ++ more) := by
  intro front back split
  rw [← List.append_assoc]
  exact (clear front back split).append more

/-- One more piece is passed when its ampersand is, if it starts with one. -/
theorem Clear.append {c : Char} {piece : Text} (clear : Clear done (c :: piece ++ rest))
    (passed : c = '&' → Passed (piece ++ rest)) (plain : '&' ∉ piece) :
    Clear (done ++ c :: piece) rest := by
  intro front back split
  rcases List.append_eq_append_iff.mp split with ⟨between, rfl, inside⟩ | ⟨between, rfl, inside⟩
  · cases between with
    | nil =>
        obtain ⟨rfl, rfl⟩ := List.cons.inj inside
        exact passed rfl
    | cons d between =>
        obtain ⟨rfl, rfl⟩ := List.cons.inj inside
        exact absurd (List.mem_append_right _ List.mem_cons_self) plain
  · cases between with
    | nil =>
        obtain ⟨rfl, rfl⟩ := List.cons.inj inside
        exact passed rfl
    | cons d between =>
        obtain ⟨rfl, rfl⟩ := List.cons.inj inside
        have met := clear front between rfl
        rw [← List.append_assoc] at met
        exact met

/-! ## Steps -/

/-- A reference is spelled with a semicolon that does not stand behind it. -/
structure Unended (c : Char) (piece rest : Text) (symbols : List Symbol) : Prop where
  /-- It starts with an ampersand. -/
  reference : c = '&'
  /-- What stands behind the ampersand is a name. -/
  name : IsReferenceName piece
  /-- It is met without a semicolon. -/
  met : ¬ Terminated (piece ++ rest)
  /-- It is spelled with one. -/
  spelled : symbols = chars ('&' :: piece ++ [';'])
  /-- Something else stands behind it. -/
  other : ∃ d behind, rest = d :: behind ∧ d ≠ ';'

/-- **What a step takes**: a character and a piece of text that belongs to it.  It is spelled as it
is, or as a reference with a semicolon that does not stand behind it. -/
structure Taken (rest : Text) (symbols : List Symbol) (q : Place) (c : Char) (piece : Text) :
    Prop where
  /-- No raw element is opened. -/
  raw : q.raw = none
  /-- The character and the piece are taken. -/
  split : rest = c :: piece ++ q.rest
  /-- No ampersand stands in the piece. -/
  plain : '&' ∉ piece
  /-- An ampersand is passed. -/
  passed : c = '&' → Passed (piece ++ q.rest)
  /-- What is taken is spelled. -/
  spelled : symbols = chars (c :: piece) ∨ Unended c piece q.rest symbols

/-- What is taken of a reference: its name, with its semicolon if it has one. -/
theorem exists_taken_of_reference (read : readReference? body = some (name, rest)) :
    ∃ piece, Taken ('&' :: body) (chars ('&' :: name ++ [';'])) ⟨none, rest⟩ '&' piece := by
  have passed := passed_of_readReference? read
  obtain ⟨isName, d, behind, rfl, rfl⟩ := readReference?_eq_some read
  by_cases semicolon : d = ';'
  · subst semicolon
    refine ⟨name ++ [';'], rfl, by simp [dropSemicolon], ?_, fun _ => ?_, Or.inl rfl⟩
    · simpa using isName.not_mem
    · simpa [dropSemicolon] using passed
  · rw [dropSemicolon_of_ne semicolon] at read ⊢
    have unended : ¬ Terminated (name ++ d :: behind) := fun terminated =>
      semicolon (List.cons.inj (List.append_cancel_left (terminated name _ read))).1
    exact ⟨name, rfl, rfl, isName.not_mem, fun _ => passed,
      Or.inr ⟨rfl, isName, unended, rfl, d, behind, rfl, semicolon⟩⟩

namespace Place

theorem not_stops_of_unopened (unopened : '<' ∉ rest) : ¬ (⟨none, rest⟩ : Place).Stops := by
  rintro ⟨e, stops⟩
  obtain ⟨-, moved⟩ := move_of_stops stops
  simp only [move] at moved
  split at moved
  · cases moved
  · split at moved
    · exact unopened List.mem_cons_self
    · cases moved
    · cases moved

/-- **What a step takes and spells** in text without tags. -/
theorem Steps.exists_taken (unopened : '<' ∉ rest)
    (step : (⟨none, rest⟩ : Place).Steps symbols q) : ∃ c piece, Taken rest symbols q c piece := by
  cases rest with
  | nil => cases step
  | cons c rest =>
      by_cases plain : isSpecial c = false
      · rw [Steps, next, plain] at step
        cases step
        refine ⟨c, [], rfl, rfl, List.not_mem_nil, ?_, Or.inl rfl⟩
        rintro rfl
        cases plain
      · have reference : c = '&' := by
          simp only [isSpecial, Bool.or_eq_false_iff, beq_eq_false_iff_ne, not_and_or,
            Decidable.not_not] at plain
          exact plain.resolve_left fun same => unopened (same ▸ List.mem_cons_self)
        subst reference
        rcases reference_cases rest with
          ⟨name, left, read⟩ | ⟨passed, mark, left, kind, rfl, taken⟩ | ⟨waits, -⟩
        · obtain ⟨rfl, rfl⟩ := step.unique (steps_reference read)
          exact ⟨'&', exists_taken_of_reference read⟩
        · obtain ⟨rfl, rfl⟩ := step.unique taken
          refine ⟨'&', mark, rfl, rfl, ?_, fun _ => passed, Or.inl rfl⟩
          rcases kind with rfl | rfl <;> decide
        · exact absurd waits step.not_waits

end Place

/-! ## Readings -/

/-- **Symbols that restore a text** behind what was read before: they are characters and keep the
text, and they are the text when the whole is intact. -/
def Restores (done s : Text) (symbols : List Symbol) : Prop :=
  ∃ t, symbols = chars t ∧ Kept s t ∧ (Intact (done ++ s) → t = s)

/-- **A reading behind what was read before**: it takes a piece of the text, passes the ampersands
in it, and restores it in front of whatever is restored next. -/
structure Onward (done : Text) (p : Place) (symbols : List Symbol) (piece : Text) (q : Place) :
    Prop where
  /-- The piece is taken. -/
  split : p.rest = piece ++ q.rest
  /-- No raw element is opened. -/
  raw : q.raw = none
  /-- The ampersands are passed. -/
  clear : Clear (done ++ piece) q.rest
  /-- The piece is restored. -/
  carry : ∀ more later, Restores (done ++ piece) (q.rest ++ more) later →
    Restores done (p.rest ++ more) (symbols ++ later)

theorem Onward.unopened {piece : Text} (onward : Onward done p symbols piece q)
    (unopened : '<' ∉ p.rest) : '<' ∉ q.rest := by
  rw [onward.split] at unopened
  exact fun member => unopened (List.mem_append_right piece member)

theorem restores_refl (done s : Text) : Restores done s (chars s) :=
  ⟨s, rfl, .refl s, fun _ => rfl⟩

/-- A piece that is spelled as it is restores itself. -/
theorem Restores.append {piece : Text} (restores : Restores (done ++ piece) s later) :
    Restores done (piece ++ s) (chars piece ++ later) := by
  obtain ⟨t, rfl, kept, same⟩ := restores
  refine ⟨piece ++ t, (chars_append piece t).symm, kept.append piece, fun intact => ?_⟩
  rw [same (by rwa [List.append_assoc])]

/-- A reference that gets a semicolon restores what stands there, which is not intact. -/
theorem Restores.closed {c : Char} (isName : IsReferenceName name) (other : c ≠ ';')
    (restores : Restores (done ++ '&' :: name) (c :: s) later)
    (met : ¬ Intact (done ++ ('&' :: name ++ c :: s))) :
    Restores done ('&' :: name ++ c :: s) (chars ('&' :: name ++ [';']) ++ later) := by
  obtain ⟨t, rfl, kept, -⟩ := restores
  refine ⟨'&' :: name ++ ';' :: t, ?_, .closed isName other kept, fun intact => absurd intact met⟩
  rw [← chars_append]
  simp

theorem Place.Steps.exists_onward (unopened : '<' ∉ rest) (clear : Clear done rest)
    (step : (⟨none, rest⟩ : Place).Steps symbols q) :
    ∃ piece, Onward done ⟨none, rest⟩ symbols piece q := by
  obtain ⟨c, piece, raw, rfl, plain, passed, spelled⟩ := step.exists_taken unopened
  refine ⟨c :: piece, rfl, raw, clear.append passed plain, fun more later restores => ?_⟩
  rw [List.append_assoc]
  rcases spelled with rfl | ⟨rfl, isName, unended, rfl, d, behind, left, other⟩
  · exact restores.append
  · rw [left] at restores unended clear ⊢
    rw [List.cons_append] at restores ⊢
    refine restores.closed isName other fun intact => ?_
    refine unended (intact.terminated done _ more ?_ clear)
    simp

/-- **A reading goes on behind what was read before.** -/
theorem Reads.exists_onward (reads : Reads p symbols q) (raw : p.raw = none)
    (unopened : '<' ∉ p.rest) (clear : Clear done p.rest) :
    ∃ piece, Onward done p symbols piece q := by
  induction reads generalizing done with
  | refl p =>
      exact ⟨[], rfl, raw, by rwa [List.append_nil], fun more later restores => by
        rwa [List.append_nil] at restores⟩
  | @step p q r first later step _ ih =>
      obtain ⟨_, rest⟩ := p
      cases raw
      obtain ⟨piece, onward⟩ := step.exists_onward unopened clear
      obtain ⟨piece', onward'⟩ := ih onward.raw (onward.unopened unopened) onward.clear
      refine ⟨piece ++ piece', ?_, onward'.raw, ?_, fun more last restores => ?_⟩
      · rw [onward.split, onward'.split, List.append_assoc]
      · rw [← List.append_assoc]
        exact onward'.clear
      · rw [← List.append_assoc] at restores
        rw [List.append_assoc]
        exact onward.carry more _ (onward'.carry more last restores)

namespace Place

theorem finish_of_halt {s left : Text} (filled : s ≠ [])
    (h : move true none s = .ok (.halt [] left)) :
    (⟨none, s⟩ : Place).finish = .ok (chars left) := by
  rw [finish, pass, pass_of_halt filled h]
  rfl

/-- **The end of the input restores what is left.** -/
theorem exists_finish (p : Place) (raw : p.raw = none) (unopened : '<' ∉ p.rest)
    (clear : Clear done p.rest) : ∃ last, p.finish = .ok last ∧ Restores done p.rest last := by
  induction p using Place.induction generalizing done with
  | waits p waits =>
      obtain ⟨_, rest⟩ := p
      cases raw
      rcases waits.cases with empty | ⟨filled, halts⟩
      · cases empty
        refine ⟨chars [], ?_, restores_refl _ _⟩
        rw [finish, pass, pass_nil]
        rfl
      · rcases move_true_of_waits halts with same | ⟨u, rfl, -⟩ | ⟨c, rfl, letter, lost⟩
        · exact ⟨_, finish_of_halt filled same, restores_refl _ _⟩
        · exact absurd List.mem_cons_self unopened
        · refine ⟨_, finish_of_halt filled lost, [c], rfl, .lost letter, fun intact => ?_⟩
          rw [intact.last done c rfl clear] at letter
          cases letter
  | stops p stops =>
      obtain ⟨_, rest⟩ := p
      cases raw
      exact absurd stops (not_stops_of_unopened unopened)
  | stray p body stray _ =>
      refine ⟨_, finish_of_stray stray, ?_⟩
      obtain ⟨rfl, -⟩ := stray
      rw [← chars_append]
      exact restores_refl _ _
  | steps p q symbols step tidy ih =>
      obtain ⟨_, rest⟩ := p
      cases raw
      obtain ⟨piece, onward⟩ := step.exists_onward unopened clear
      obtain ⟨last, finished, restores⟩ := ih onward.raw (onward.unopened unopened) onward.clear
      refine ⟨symbols ++ last, by rw [finish_of_steps step tidy, finished]; rfl, ?_⟩
      have carried := onward.carry [] last (by rwa [List.append_nil])
      rwa [List.append_nil] at carried

/-- **All chunks restore the text**, whatever was read before. -/
theorem exists_readFrom (chunks : List Text) (p : Place) (raw : p.raw = none)
    (unopened : '<' ∉ p.rest ++ chunks.flatten) (clear : Clear done p.rest) :
    ∃ whole, readFrom p chunks = .ok whole ∧ Restores done (p.rest ++ chunks.flatten) whole := by
  induction chunks generalizing p done with
  | nil =>
      rw [List.flatten_nil, List.append_nil] at unopened ⊢
      rw [readFrom_nil]
      exact exists_finish p raw unopened clear
  | cons chunk chunks ih =>
      rw [List.flatten_cons, ← List.append_assoc] at unopened ⊢
      obtain ⟨_, rest⟩ := p
      cases raw
      have inView : '<' ∉ rest ++ chunk := fun member => unopened (List.mem_append_left _ member)
      rcases reads_of_pass (extend ⟨none, rest⟩ chunk) with
        ⟨e, -, symbols, q, reads, stops⟩ | ⟨symbols, q, passed, reads, -⟩
      · obtain ⟨piece, onward⟩ := reads.exists_onward rfl inView (clear.extend chunk)
        obtain ⟨_, left⟩ := q
        cases onward.raw
        exact absurd stops (not_stops_of_unopened (onward.unopened inView))
      · obtain ⟨piece, onward⟩ := reads.exists_onward rfl inView (clear.extend chunk)
        have split : rest ++ chunk = piece ++ q.rest := onward.split
        have behind : '<' ∉ q.rest ++ chunks.flatten := by
          rw [split, List.append_assoc] at unopened
          exact fun member => unopened (List.mem_append_right piece member)
        obtain ⟨whole, read, restores⟩ := ih q onward.raw behind onward.clear
        refine ⟨symbols ++ whole, ?_, onward.carry chunks.flatten whole restores⟩
        rw [readFrom_cons, passed]
        simp only [Except.bind, read, Except.map]

end Place

/-! ## Texts that all chunks give as they are -/

section Alike

variable {seen unseen : Text}

/-- What stands in front of an ampersand is made of pieces that hold none. -/
theorem exists_of_append_eq {piece : Text} (plain : '&' ∉ piece)
    (split : back ++ '&' :: body = piece ++ rest) :
    ∃ back', back = piece ++ back' ∧ rest = back' ++ '&' :: body := by
  rcases List.append_eq_append_iff.mp split with ⟨between, rfl, inside⟩ | ⟨between, rfl, rfl⟩
  · cases between with
    | nil => exact ⟨[], by simp, by simpa using inside.symm⟩
    | cons c between =>
        obtain ⟨rfl, -⟩ := List.cons.inj inside
        exact absurd (List.mem_append_right _ List.mem_cons_self) plain
  · exact ⟨between, rfl, rfl⟩

theorem Place.exists_steps {c : Char} (unopened : c ≠ '<')
    (passed : c = '&' → Passed (back ++ '&' :: body)) :
    ∃ symbols q, (⟨none, c :: (back ++ '&' :: body)⟩ : Place).Steps symbols q := by
  by_cases reference : c = '&'
  · subst reference
    rcases reference_cases (back ++ '&' :: body) with ⟨name, rest, read⟩ | ⟨-, _, _, -, -, step⟩ |
      ⟨-, name⟩
    · exact ⟨_, _, steps_reference read⟩
    · exact ⟨_, _, step⟩
    · exact absurd (name (passed rfl) '&' (List.mem_append_right back List.mem_cons_self))
        (by decide)
  · have plain : isSpecial c = false := by simp [isSpecial, unopened, reference]
    refine ⟨[.char c], ⟨none, back ++ '&' :: body⟩, ?_⟩
    rw [Steps, next, plain]
    rfl

/-- A semicolon is spelled where one stands. -/
theorem Alike.eq_semicolon {d : Char} {behind : Text} (alike : Alike s (chars s))
    (split : seen ++ unseen = s) (view : seen = front ++ (name ++ d :: behind))
    (reads : Reads { rest := seen } (chars front ++ chars (name ++ [';'])) p) : d = ';' := by
  obtain ⟨last, same⟩ := alike.exists_append_of_reads split reads
  rw [← split, view] at same
  simp only [chars_append, List.append_assoc, List.append_cancel_left_eq] at same
  exact Symbol.char.inj (List.cons.inj same).1

/-- A reader goes on towards an ampersand and spells what it takes as it is. -/
theorem Alike.exists_reads {c : Char} (alike : Alike s (chars s)) (unopened : '<' ∉ s)
    (split : seen ++ unseen = s) (view : seen = front ++ c :: (back ++ '&' :: body))
    (passed : c = '&' → Passed (back ++ '&' :: body))
    (reads : Reads { rest := seen } (chars front) ⟨none, c :: (back ++ '&' :: body)⟩) :
    ∃ piece back', back = piece ++ back' ∧
      Reads { rest := seen } (chars (front ++ c :: piece)) ⟨none, back' ++ '&' :: body⟩ := by
  have outside : '<' ∉ c :: (back ++ '&' :: body) := by
    rw [← split, view] at unopened
    exact fun member => unopened (List.mem_append_left _ (List.mem_append_right _ member))
  have closed : c ≠ '<' := by
    rintro rfl
    exact outside List.mem_cons_self
  obtain ⟨symbols, ⟨_, rest⟩, step⟩ := Place.exists_steps closed passed
  have further := reads.trans (.single step)
  obtain ⟨c', piece, rfl, taken, plain, -, spelled⟩ := step.exists_taken outside
  obtain ⟨rfl, behind⟩ := List.cons.inj taken
  obtain ⟨back', rfl, rfl⟩ := exists_of_append_eq plain behind
  refine ⟨piece, back', rfl, ?_⟩
  rcases spelled with rfl | ⟨rfl, -, -, rfl, d, later, left, other⟩
  · rwa [← chars_append] at further
  · have view' : seen = front ++ ('&' :: piece ++ d :: later) := by
      rw [← left, view]
      simp
    exact absurd (alike.eq_semicolon split view' further) other

/-- **A reader comes to every ampersand** behind passed ones, with what stands there as it is. -/
theorem Alike.reads_of_clear (front back : Text) (alike : Alike s (chars s)) (unopened : '<' ∉ s)
    (split : seen ++ unseen = s) (view : seen = front ++ (back ++ '&' :: body))
    (clear : Clear (front ++ back) ('&' :: body))
    (reads : Reads { rest := seen } (chars front) ⟨none, back ++ '&' :: body⟩) :
    Reads { rest := seen } (chars (front ++ back)) ⟨none, '&' :: body⟩ := by
  generalize size : back.length = n
  -- on what stands between the place that is reached and the ampersand
  induction n using Nat.strongRecOn generalizing front back with
  | ind n ih =>
      cases back with
      | nil => rwa [List.append_nil]
      | cons c back =>
          have passed : c = '&' → Passed (back ++ '&' :: body) := by
            rintro rfl
            exact clear front back rfl
          obtain ⟨piece, back', rfl, further⟩ :=
            alike.exists_reads unopened split view passed reads
          have view' : seen = (front ++ c :: piece) ++ (back' ++ '&' :: body) := by
            rw [view]
            simp
          have shorter : back'.length < n := by
            rw [← size, List.length_cons, List.length_append]
            omega
          have reached := ih _ shorter _ back' view' (by simpa using clear) further rfl
          simpa using reached

/-- A last letter waits behind its ampersand, which the end of the input drops. -/
theorem Place.finish_of_lost {c : Char} (letter : Text.isLetter c = true) :
    (⟨none, ['&', c]⟩ : Place).Waits ∧ (⟨none, ['&', c]⟩ : Place).finish = .ok (chars [c]) := by
  have hash : c ≠ '#' := by
    rintro rfl
    cases letter
  have unread : readEntity? [c] = none := by
    rw [Option.eq_none_iff_forall_ne_some]
    rintro ⟨name, rest⟩ read
    obtain ⟨⟨tail, rfl, -⟩, d, behind, split, -⟩ := readEntity?_eq_some letter read
    have length := congrArg List.length split
    simp only [List.length_append, List.length_cons, List.length_nil] at length
    omega
  constructor
  · rw [Waits, next_reference, moveReference_named hash, if_pos letter, unread]
    rfl
  · refine finish_of_halt (List.cons_ne_nil _ _) ?_
    have moved : move true none ['&', c] = .ok (moveReference true [c]) := rfl
    rw [moved]
    unfold moveReference
    split
    · next same => cases same
    · next same => exact absurd (List.cons.inj same).1 hash
    · next same =>
        obtain ⟨rfl, rfl⟩ := List.cons.inj same
        rw [if_pos letter, unread]
        rfl

/-- **A text that all chunks give as it is, is intact.** -/
theorem Alike.intact (alike : Alike s (chars s)) (unopened : '<' ∉ s) : Intact s where
  terminated front body unseen split clear name rest read := by
    obtain ⟨-, d, behind, rfl, rfl⟩ := readReference?_eq_some read
    have start : Reads { rest := front ++ '&' :: (name ++ d :: behind) } (chars [])
        ⟨none, front ++ '&' :: (name ++ d :: behind)⟩ := .refl _
    have reached := alike.reads_of_clear [] front unopened split.symm rfl clear start
    have view : front ++ '&' :: (name ++ d :: behind) = front ++ ('&' :: name ++ d :: behind) := rfl
    obtain rfl := alike.eq_semicolon split.symm view
      (reached.trans (.single (Place.steps_reference read)))
    rfl
  last front c split clear := by
    cases letter : Text.isLetter c with
    | false => rfl
    | true =>
        obtain ⟨waits, finished⟩ := Place.finish_of_lost letter
        have start : Reads { rest := s } (chars []) ⟨none, front ++ '&' :: [c]⟩ := by
          rw [split]
          exact .refl _
        have reached :=
          alike.reads_of_clear [] front unopened (List.append_nil s) split clear start
        obtain ⟨later, q, last, onward, -, finished', whole⟩ := alike.exists_finish_of_reads reached
        obtain ⟨rfl, rfl⟩ := onward.eq_of_waits waits
        rw [finished] at finished'
        cases finished'
        have length := congrArg List.length whole
        rw [split] at length
        simp [chars] at length

end Alike

/-! ## Texts whose references end with semicolons -/

/-- **A text whose references end with semicolons**: their names hold neither a hyphen nor a full
stop, which could end them early, and behind any other ampersand no name can start. -/
inductive WellReferenced : Text → Prop
  /-- No text. -/
  | nil : WellReferenced []
  /-- A character of its own. -/
  | char {c : Char} {s : Text} : c ≠ '&' → WellReferenced s → WellReferenced (c :: s)
  /-- A reference with its semicolon. -/
  | reference {name s : Text} : IsReferenceName name → '-' ∉ name → '.' ∉ name →
    WellReferenced s → WellReferenced ('&' :: name ++ ';' :: s)
  /-- An ampersand of its own. -/
  | ampersand {s : Text} : (∀ c, s.head? = some c → c ≠ '#' ∧ Text.isLetter c = false) →
    WellReferenced s → WellReferenced ('&' :: s)

theorem WellReferenced.at_ampersand (h : WellReferenced s) (split : s = front ++ '&' :: body) :
    (∀ c, body.head? = some c → c ≠ '#' ∧ Text.isLetter c = false) ∨
      ∃ name rest, IsReferenceName name ∧ '-' ∉ name ∧ '.' ∉ name ∧
        body = name ++ ';' :: rest := by
  induction h generalizing front with
  | nil => exact absurd split.symm (List.append_ne_nil_of_right_ne_nil _ (List.cons_ne_nil _ _))
  | char plain _ ih =>
      cases front with
      | nil => exact absurd (List.cons.inj split).1 plain
      | cons d front => exact ih (List.cons.inj split).2
  | @reference name s isName hyphen stop _ ih =>
      cases front with
      | nil => exact Or.inr ⟨name, s, isName, hyphen, stop, (List.cons.inj split).2.symm⟩
      | cons d front =>
          have inside : front ++ '&' :: body = name ++ ';' :: s := (List.cons.inj split).2.symm
          obtain ⟨behind, -, left⟩ := exists_of_append_eq isName.not_mem inside
          cases behind with
          | nil => exact absurd (List.cons.inj left).1 (by decide)
          | cons e behind => exact ih (List.cons.inj left).2
  | ampersand alone _ ih =>
      cases front with
      | nil =>
          obtain ⟨-, rfl⟩ := List.cons.inj split
          exact Or.inl alone
      | cons d front => exact ih (List.cons.inj split).2

/-- **A text whose references end with semicolons is intact.** -/
theorem WellReferenced.intact (h : WellReferenced s) : Intact s where
  terminated front body unseen split _ := by
    rw [List.append_assoc] at split
    rcases h.at_ampersand split with alone | ⟨name, rest, isName, hyphen, stop, same⟩
    · exact terminated_of_head? fun c first => alone c (by simp [first])
    · exact terminated_of_semicolon isName hyphen stop same
  last front c split _ := by
    rcases h.at_ampersand split with alone | ⟨name, rest, isName, -, -, same⟩
    · exact (alone c rfl).2
    · have length := congrArg List.length same
      have filled := List.length_pos_iff.mpr isName.ne_nil
      simp only [List.length_append, List.length_cons, List.length_nil] at length
      omega

/-! ## Tokens -/

theorem Kept.ne_nil (kept : Kept s t) (filled : s ≠ []) : t ≠ [] := by
  cases kept with
  | nil => exact filled
  | char => exact List.cons_ne_nil _ _
  | closed => exact List.cons_ne_nil _ _
  | lost => exact List.cons_ne_nil _ _

/-- **References in text.**  Text without tags is one text token, which keeps the text but for
semicolons behind names of references and an ampersand in front of a last letter; and all ways to
cut the text give the text itself if and only if it is intact. -/
theorem tokenize_references (filled : s ≠ []) (unopened : '<' ∉ s) :
    (∀ chunks : List Text, chunks.flatten = s →
      ∃ t, tokenize chunks = { tokens := [{ kind := .text, text := t }] } ∧ Kept s t) ∧
    ((∀ chunks : List Text, chunks.flatten = s →
      tokenize chunks = { tokens := [{ kind := .text, text := s }] }) ↔ Intact s) := by
  have reported (chunks : List Text) (cut : chunks.flatten = s) :
      ∃ t, readAll chunks = .ok (chars t) ∧ Kept s t ∧ (Intact s → t = s) ∧
        tokenize chunks = { tokens := [{ kind := .text, text := t }] } := by
    subst cut
    obtain ⟨whole, read, t, rfl, kept, same⟩ :=
      Place.exists_readFrom chunks { rest := [] } rfl unopened (clear_nil [])
    refine ⟨t, read, kept, same, ?_⟩
    rw [tokenize_of_ok read, tokensFrom_of_ne_nil (kept.ne_nil filled)]
  refine ⟨fun chunks cut => ?_, fun verbatim => ?_, fun intact chunks cut => ?_⟩
  · obtain ⟨t, -, kept, -, tokens⟩ := reported chunks cut
    exact ⟨t, tokens, kept⟩
  · refine Alike.intact (fun chunks cut => ?_) unopened
    obtain ⟨t, read, -, -, tokens⟩ := reported chunks cut
    rw [verbatim chunks cut] at tokens
    cases tokens
    exact read
  · obtain ⟨t, -, -, same, tokens⟩ := reported chunks cut
    rw [tokens, same intact]

/-- References with semicolons and an ampersand of its own, in any chunks. -/
theorem ampersands_intact : "a & &amp; &#169;".toList ≠ [] ∧ '<' ∉ "a & &amp; &#169;".toList ∧
    Intact "a & &amp; &#169;".toList ∧
    ∀ chunks : List Text, chunks.flatten = "a & &amp; &#169;".toList →
      tokenize chunks = { tokens := [{ kind := .text, text := "a & &amp; &#169;".toList }] } := by
  have named : IsReferenceName "amp".toList :=
    Or.inr ⟨'a', "mp".toList, rfl, rfl, List.all_eq_true.mp (by decide)⟩
  have numeric : IsReferenceName "#169".toList :=
    Or.inl ⟨"169".toList, rfl, Or.inl ⟨List.cons_ne_nil _ _, List.all_eq_true.mp (by decide)⟩⟩
  have alone : ∀ c, " &amp; &#169;".toList.head? = some c → c ≠ '#' ∧ Text.isLetter c = false := by
    rintro _ ⟨⟩
    decide
  have written : WellReferenced "a & &amp; &#169;".toList :=
    .char (by decide) <| .char (by decide) <| .ampersand alone <| .char (by decide) <|
      .reference named (by decide) (by decide) <| .char (by decide) <|
        .reference numeric (by decide) (by decide) .nil
  have filled : "a & &amp; &#169;".toList ≠ [] := by decide
  have unopened : '<' ∉ "a & &amp; &#169;".toList := by decide
  exact ⟨filled, unopened, written.intact,
    (tokenize_references filled unopened).2.mpr written.intact⟩

/-- **References that are not kept**: one that is not ended gets a semicolon, an ampersand in front
of a last letter is lost, and a name is ended at a mark where a chunk ends. -/
theorem references_altered :
    (¬ ∀ s : Text, s ≠ [] → '<' ∉ s → ∀ chunks : List Text, chunks.flatten = s →
      tokenize chunks = { tokens := [{ kind := .text, text := s }] }) ∧
    tokenize ["a=1&b=2".toList] =
      { tokens := [{ kind := .text, text := "a=1&b;=2".toList }] } ∧
    tokenize ["&a".toList] = { tokens := [{ kind := .text, text := "a".toList }] } ∧
    tokenize ["&a-".toList, "b;".toList] =
      { tokens := [{ kind := .text, text := "&a;-b;".toList }] } := by
  have query : tokenize ["a=1&b=2".toList] =
      { tokens := [{ kind := .text, text := "a=1&b;=2".toList }] } := by decide +kernel
  refine ⟨fun kept => ?_, query, by decide +kernel, by decide +kernel⟩
  have same := kept "a=1&b=2".toList (by decide) (by decide) ["a=1&b=2".toList] rfl
  rw [query] at same
  exact absurd same (by decide)

end PageAssembly.Markup
