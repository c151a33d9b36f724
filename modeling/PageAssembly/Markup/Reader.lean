import PageAssembly.Markup.Declaration
import PageAssembly.Markup.Entity

/-!
# The tolerant markup reader

The reader turns text that arrives in chunks into events.  It never looks ahead of what has
arrived: markup that may still go on waits for the next chunk, and at the end of the input what
still waits is read as text.

## Main definitions

* `Markup.Move` — what the reader does at one place: go on, or end this pass over its input
* `Markup.move` — the move at the start of a text
* `Markup.pass` — the moves over a text, until it is used up or a move ends the pass
* `Markup.Reader` — the text that waits and the raw element that is open
* `Reader.feed`, `Reader.close` — the events of one more chunk, and of the end of the input

## Main statements

* `Markup.moveMarkup_cases` — the moves at a `<`
* `Markup.move_length_lt` — a reader that goes on has used up text, so every pass ends

## Design notes

A pass ends early at markup that is cut off by the end of the text, and at an `&#` that starts no
numeric reference.  In the second case the two characters are used up if a semicolon stands anywhere
behind them.  What a pass leaves is read again with the next chunk; at the end of the input it
becomes text, unless a raw element is open, whose unread text is dropped.

At the end of the input, markup that is cut off is text up to the next `>`, or up to the next `<`
when no `>` follows, and reading goes on behind it.  A lone reference of two characters loses its
ampersand there.
-/

namespace PageAssembly.Markup

/-- What the reader does at one place. -/
inductive Move where
  /-- Reports events and goes on with the rest, inside the given raw element. -/
  | advance (events : List Event) (rest : Text) (raw : Option RawElement)
  /-- Reports events and leaves the rest to the next pass. -/
  | halt (events : List Event) (rest : Text)
  deriving DecidableEq, Repr

/-- Whether a move that goes on leaves less than the given text. -/
def Move.Shortens (s : Text) : Move → Prop
  | .advance _ rest _ => rest.length < s.length
  | .halt _ _ => True

/-! ## Markup that starts with `<` -/

/-- Splits off the text that cut-off markup becomes at the end of the input; `s` stands behind its
`<`. -/
def abandon (s : Text) : Text × Text :=
  match Text.cut? ['>'] s with
  | some (before, rest) => ('<' :: before ++ ['>'], rest)
  | none =>
    match Text.cut? ['<'] s with
    | some (before, rest) => ('<' :: before, '<' :: rest)
    | none => (['<'], s)

theorem abandon_written (s : Text) : (abandon s).1 ++ (abandon s).2 = '<' :: s := by
  unfold abandon
  split
  · next h => simp [Text.cut?_eq_some h]
  · split
    · next h => simp [Text.cut?_eq_some h]
    · rfl

theorem abandon_length_le (s : Text) : (abandon s).2.length ≤ s.length := by
  have h := congrArg List.length (abandon_written s)
  have h1 : 0 < (abandon s).1.length := by
    unfold abandon
    split
    · simp
    · split <;> simp
  simp only [List.length_append, List.length_cons] at h
  omega

/-- The move at markup that is cut off; `s` stands behind its `<`. -/
def moveCutOff (closing : Bool) (s : Text) : Move :=
  if closing then .advance [.text (abandon s).1] (abandon s).2 none else .halt [] ('<' :: s)

theorem moveCutOff_shortens (closing : Bool) (s : Text) :
    (moveCutOff closing s).Shortens ('<' :: s) := by
  unfold moveCutOff
  split
  · exact Nat.lt_succ_of_le (abandon_length_le s)
  · trivial

/-- Elements that never have an end tag. -/
def voidElements : List Text :=
  [['a', 'r', 'e', 'a'], ['b', 'a', 's', 'e'], ['b', 'r'], ['c', 'o', 'l'],
    ['e', 'm', 'b', 'e', 'd'], ['h', 'r'], ['i', 'm', 'g'], ['i', 'n', 'p', 'u', 't'],
    ['l', 'i', 'n', 'k'], ['m', 'e', 't', 'a'], ['p', 'a', 'r', 'a', 'm'],
    ['s', 'o', 'u', 'r', 'c', 'e'], ['t', 'r', 'a', 'c', 'k'], ['w', 'b', 'r']]

/-- The category of a start tag. -/
def startKind (name : Text) (selfClosing : Bool) : Kind :=
  if selfClosing || name ∈ voidElements then .selfClosing else .startTag

/-- The raw element that a start tag opens. -/
def opensRaw? (name : Text) (selfClosing : Bool) : Option RawElement :=
  if selfClosing then none else RawElement.ofName? name

/-- The move at a finished start tag. -/
def moveTag (tag : StartTag) (selfClosing : Bool) (rest : Text) : Except Malformed Move :=
  let name := tag.name.lower
  let ending := if selfClosing then ['/', '>'] else ['>']
  match tag.attributes.findSome? (fun a => oversizedReference? Text.digitLimit a.value) with
  | some digits => .error (.oversizedReference digits)
  | none =>
    .ok (.advance
      [.mark { kind := startKind name selfClosing, text := tag.written ++ ending, tag := some name }]
      rest (opensRaw? name selfClosing))

/-- The move at a start tag; `s` stands behind its `<`. -/
def moveStartTag (closing : Bool) (s : Text) : Except Malformed Move :=
  let (tag, behind) := StartTag.read s
  match StartTag.ending behind with
  | .plain rest => moveTag tag false rest
  | .selfClosing rest => moveTag tag true rest
  | .broken => .ok (.advance [.text tag.written] behind none)
  | .unfinished => .ok (moveCutOff closing s)

/-- The move at markup whose reader is given; `s` stands behind its `<`. -/
def moveFound (closing : Bool) (s : Text) (found : Option (List Event × Text)) : Move :=
  match found with
  | some (events, rest) => .advance events rest none
  | none => moveCutOff closing s

/-- The move at a `<`; `s` stands behind it. -/
def moveMarkup (closing : Bool) (s : Text) : Except Malformed Move :=
  match s with
  | [] => .ok (.halt [] ['<'])
  | c :: _ =>
    if Text.isLetter c then moveStartTag closing s
    else if c == '/' then .ok (moveFound closing s (readEndTag? ('<' :: s)))
    else if Text.startsWith s ['!', '-', '-'] then
      .ok (moveFound closing s (readComment? ('<' :: s)))
    else if c == '?' then .ok (moveFound closing s (readInstruction? ('<' :: s)))
    else if c == '!' then (readDeclaration ('<' :: s)).map (moveFound closing s)
    else .ok (.advance [.text ['<']] s none)

/-- What is read at a `<` that starts no start tag; `s` stands behind it. -/
inductive MarkupRead (s : Text) : Option (List Event × Text) → Prop
  /-- An end tag. -/
  | endTag : MarkupRead s (readEndTag? ('<' :: s))
  /-- A comment. -/
  | comment : MarkupRead s (readComment? ('<' :: s))
  /-- A processing instruction. -/
  | instruction : MarkupRead s (readInstruction? ('<' :: s))
  /-- A declaration. -/
  | declaration {found : Option (List Event × Text)} :
    readDeclaration ('<' :: s) = .ok found → MarkupRead s found

/-- **The moves at a `<`**: nothing stands behind it, or a start tag, or other markup, which may
stop the reader, or text. -/
theorem moveMarkup_cases (s : Text) :
    s = [] ∨
    (∀ closing, moveMarkup closing s = moveStartTag closing s) ∨
    (∃ found, MarkupRead s found ∧
      ∀ closing, moveMarkup closing s = .ok (moveFound closing s found)) ∨
    (∃ e, ∀ closing, moveMarkup closing s = .error e) ∨
    ∀ closing, moveMarkup closing s = .ok (.advance [.text ['<']] s none) := by
  cases s with
  | nil => exact Or.inl rfl
  | cons c t =>
    refine Or.inr ?_
    by_cases letter : Text.isLetter c = true
    · exact Or.inl fun _ => by rw [moveMarkup, if_pos letter]
    · refine Or.inr ?_
      simp only [moveMarkup, if_neg letter]
      by_cases slash : (c == '/') = true
      · exact Or.inl ⟨_, .endTag, fun _ => if_pos slash⟩
      · simp only [if_neg slash]
        by_cases comment : Text.startsWith (c :: t) ['!', '-', '-'] = true
        · exact Or.inl ⟨_, .comment, fun _ => if_pos comment⟩
        · simp only [if_neg comment]
          by_cases question : (c == '?') = true
          · exact Or.inl ⟨_, .instruction, fun _ => if_pos question⟩
          · simp only [if_neg question]
            by_cases mark : (c == '!') = true
            · simp only [if_pos mark]
              cases read : readDeclaration ('<' :: c :: t) with
              | error e => exact Or.inr (Or.inl ⟨e, fun _ => rfl⟩)
              | ok found => exact Or.inl ⟨found, .declaration read, fun _ => rfl⟩
            · exact Or.inr (Or.inr fun _ => if_neg mark)

/-! ## References -/

/-- The move at an `&`; `s` stands behind it. -/
def moveReference (closing : Bool) (s : Text) : Move :=
  match s with
  | [] => .halt [] ['&']
  | '#' :: body =>
    match readCharacterReference? body with
    | some (number, rest) => .advance [.text ('&' :: '#' :: number ++ [';'])] rest none
    | none => if body.elem ';' then .halt [.text ['&', '#']] body else .halt [] ('&' :: s)
  | c :: body =>
    if Text.isLetter c then
      match readEntity? s with
      | some (name, rest) => .advance [.text ('&' :: name ++ [';'])] rest none
      | none => if closing && body.isEmpty then .halt [] s else .halt [] ('&' :: s)
    else .advance [.text ['&']] s none

/-! ## Raw text -/

/-- The move inside a raw element. -/
def moveRaw (element : RawElement) (s : Text) : Move :=
  match Text.search element.endAt? s with
  | none => .halt [] s
  | some (before, inner, rest) =>
    let text := if before.isEmpty then [] else [Event.text before]
    let written := '<' :: '/' :: inner ++ ['>']
    match closingName? inner with
    | some name => .advance (text ++ [.mark (endTagToken written name)]) rest none
    | none => .advance (text ++ [.text written]) rest (some element)

/-! ## Moves and passes -/

/-- Whether a character may start markup or a reference. -/
def isSpecial (c : Char) : Bool := c == '<' || c == '&'

/-- The move at the start of a text. -/
def move (closing : Bool) (raw : Option RawElement) (s : Text) : Except Malformed Move :=
  match raw with
  | some element => .ok (moveRaw element s)
  | none =>
    let plain := Text.run (fun c => !isSpecial c) s
    if !plain.1.isEmpty then .ok (.advance [.text plain.1] plain.2 none)
    else
      match s with
      | '<' :: s => moveMarkup closing s
      | '&' :: s => .ok (moveReference closing s)
      | _ => .ok (.halt [] s)

/-! ## Every move forward uses up text -/

theorem readEndTag?_length_lt {s rest : Text} {events : List Event}
    (h : readEndTag? s = some (events, rest)) : rest.length < s.length := by
  obtain ⟨inner, rfl, -⟩ := readEndTag?_eq_some h
  simp only [List.length_append, List.length_cons]
  omega

theorem readComment?_length_lt {s rest : Text} {events : List Event}
    (h : readComment? s = some (events, rest)) : rest.length < s.length := by
  obtain ⟨body, inner, opened, closed, -⟩ := readComment?_eq_some h
  obtain ⟨found, rfl, ends⟩ := Text.search_eq_some closed
  simp only [afterCommentEnd?, Option.bind_eq_some_iff] at ends
  obtain ⟨behind, marks, ends⟩ := ends
  have hl := afterSpaced?_length_le ends
  rw [Text.after?_eq_some.1 opened, Text.after?_eq_some.1 marks]
  simp only [List.length_append, List.length_cons, List.length_nil]
  omega

theorem readInstruction?_length_lt {s rest : Text} {events : List Event}
    (h : readInstruction? s = some (events, rest)) : rest.length < s.length := by
  obtain ⟨body, inner, opened, cut, -⟩ := readInstruction?_eq_some h
  rw [Text.after?_eq_some.1 opened, Text.cut?_eq_some cut]
  simp only [List.length_append, List.length_cons, List.length_nil]
  omega

theorem afterSectionEnd?_length_le {marks s rest : Text}
    (h : afterSectionEnd? marks s = some rest) : rest.length ≤ s.length := by
  simp only [afterSectionEnd?, Option.bind_eq_some_iff] at h
  obtain ⟨behind, hb, h⟩ := h
  have := afterSpaced?_length_le h
  rw [Text.after?_eq_some.1 hb, List.length_append]
  omega

theorem readSection_length_le {opening body rest : Text} {events : List Event}
    (h : readSection opening body = .ok (some (events, rest))) : rest.length ≤ body.length := by
  obtain ⟨name, marks, inner, -, closed, -⟩ := readSection_eq_some h
  obtain ⟨found, split, ends⟩ := Text.search_eq_some closed
  have := afterSectionEnd?_length_le ends
  rw [split, List.length_append]
  omega

theorem afterDoctype?_length_le {s rest : Text} (h : afterDoctype? s = some rest) :
    rest.length ≤ s.length := by
  unfold afterDoctype? at h
  split at h
  · simp only [Option.some.injEq] at h
    rw [← h, List.length_drop]
    omega
  · simp at h

theorem readDeclaration_length_lt {s rest : Text} {events : List Event}
    (h : readDeclaration s = .ok (some (events, rest))) : rest.length < s.length := by
  rcases readDeclaration_eq_some h with ⟨opening, body, rfl, read⟩ |
    ⟨body, behind, inner, rfl, doctype, cut, -⟩ | ⟨body, inner, rfl, cut, -⟩
  · have := readSection_length_le read
    simp only [List.length_cons]
    omega
  · have h1 := afterDoctype?_length_le doctype
    have h2 := congrArg List.length (Text.cut?_eq_some cut)
    simp only [List.length_append, List.length_cons, List.length_nil] at h2 ⊢
    omega
  · have h2 := congrArg List.length (Text.cut?_eq_some cut)
    simp only [List.length_append, List.length_cons, List.length_nil] at h2 ⊢
    omega

theorem moveFound_shortens {closing : Bool} {s : Text} {found : Option (List Event × Text)}
    (h : ∀ events rest, found = some (events, rest) → rest.length < s.length + 1) :
    (moveFound closing s found).Shortens ('<' :: s) := by
  unfold moveFound
  split
  · next events rest => exact h events rest rfl
  · exact moveCutOff_shortens closing s

theorem moveTag_shortens {tag : StartTag} {selfClosing : Bool} {rest s : Text} {m : Move}
    (hl : rest.length < s.length) (h : moveTag tag selfClosing rest = .ok m) : m.Shortens s := by
  simp only [moveTag] at h
  split at h
  · simp at h
  · simp only [Except.ok.injEq] at h
    rw [← h]
    exact hl

theorem StartTag.ending_plain {s rest : Text} (h : ending s = .plain rest) : s = '>' :: rest := by
  unfold StartTag.ending at h
  split at h <;> simp_all <;> split at h <;> simp_all

theorem StartTag.ending_selfClosing {s rest : Text} (h : ending s = .selfClosing rest) :
    s = '/' :: '>' :: rest := by
  unfold StartTag.ending at h
  split at h <;> simp_all <;> split at h <;> simp_all

theorem moveStartTag_shortens {closing : Bool} {s : Text} {m : Move}
    (h : moveStartTag closing s = .ok m) : m.Shortens ('<' :: s) := by
  have hw := congrArg List.length (StartTag.read_written s)
  simp only [moveStartTag] at h
  have hp : 0 < (StartTag.read s).1.written.length := by simp [StartTag.written]
  simp only [List.length_append] at hw
  split at h
  · next rest he =>
    refine moveTag_shortens ?_ h
    have := congrArg List.length (StartTag.ending_plain he)
    simp only [List.length_cons] at this hw ⊢
    omega
  · next rest he =>
    refine moveTag_shortens ?_ h
    have := congrArg List.length (StartTag.ending_selfClosing he)
    simp only [List.length_cons] at this hw ⊢
    omega
  · simp only [Except.ok.injEq] at h
    rw [← h, Move.Shortens]
    omega
  · simp only [Except.ok.injEq] at h
    rw [← h]
    exact moveCutOff_shortens closing s

theorem MarkupRead.length_lt {s rest : Text} {events : List Event}
    (read : MarkupRead s (some (events, rest))) : rest.length < s.length + 1 := by
  generalize same : some (events, rest) = found at read
  cases read with
  | endTag => exact readEndTag?_length_lt same.symm
  | comment => exact readComment?_length_lt same.symm
  | instruction => exact readInstruction?_length_lt same.symm
  | declaration read => exact readDeclaration_length_lt (same ▸ read)

theorem moveMarkup_shortens {closing : Bool} {s : Text} {m : Move}
    (h : moveMarkup closing s = .ok m) : m.Shortens ('<' :: s) := by
  rcases moveMarkup_cases s with rfl | tag | ⟨found, read, moved⟩ | ⟨e, failed⟩ | text
  · cases h
    trivial
  · rw [tag] at h
    exact moveStartTag_shortens h
  · rw [moved] at h
    cases h
    exact moveFound_shortens fun events rest same => (same ▸ read).length_lt
  · rw [failed] at h
    cases h
  · rw [text] at h
    cases h
    simp [Move.Shortens]

theorem readCharacterReference?_length_le {s number rest : Text}
    (h : readCharacterReference? s = some (number, rest)) : rest.length ≤ s.length := by
  unfold readCharacterReference? at h
  split at h
  · next number' c rest' hn =>
    split at h
    · simp at h
    · simp only [Option.some.injEq, Prod.mk.injEq] at h
      obtain ⟨rfl, rfl⟩ := h
      have h1 := congrArg List.length (readNumber?_written hn)
      have h2 := length_dropSemicolon_le (c :: rest')
      rw [List.length_append] at h1
      omega
  · simp at h

theorem readEntity?_length_le {s name rest : Text} (h : readEntity? s = some (name, rest)) :
    rest.length ≤ s.length := by
  have hw := congrArg List.length (Text.run_written isEntityName s)
  simp only [List.length_append] at hw
  simp only [readEntity?] at h
  split at h
  · simp only [Option.some.injEq, Prod.mk.injEq] at h
    have := length_dropSemicolon_le (Text.run isEntityName s).2
    rw [← h.2]
    omega
  · split at h
    · simp at h
    · next mark before hm =>
      simp only [Option.some.injEq, Prod.mk.injEq] at h
      have ht := congrArg List.length
        (Text.run_written (fun c => !endsEntity c) (Text.run isEntityName s).1.reverse)
      rw [hm] at ht
      simp only [List.length_append, List.length_cons, List.length_reverse] at ht
      rw [← h.2]
      simp only [List.length_cons, List.length_reverse]
      omega

theorem moveReference_shortens (closing : Bool) (s : Text) :
    (moveReference closing s).Shortens ('&' :: s) := by
  unfold moveReference
  split
  · trivial
  · split
    · next hn =>
      have := readCharacterReference?_length_le hn
      simp only [Move.Shortens, List.length_cons]
      omega
    · split <;> trivial
  · split
    · split
      · next hn =>
        have := readEntity?_length_le hn
        simp only [Move.Shortens, List.length_cons] at this ⊢
        omega
      · split <;> trivial
    · simp [Move.Shortens]

theorem moveRaw_shortens (element : RawElement) (s : Text) :
    (moveRaw element s).Shortens s := by
  unfold moveRaw
  split
  · trivial
  · next before inner rest hs =>
    obtain ⟨found, rfl, hf⟩ := Text.search_eq_some hs
    obtain ⟨rfl, -⟩ := RawElement.endAt?_eq_some hf
    simp only
    split <;> simp only [Move.Shortens, List.length_append, List.length_cons] <;> omega

/-- A move that goes on leaves less text than it found. -/
theorem move_length_lt {closing : Bool} {raw raw' : Option RawElement} {s rest : Text}
    {events : List Event} (h : move closing raw s = .ok (.advance events rest raw')) :
    rest.length < s.length := by
  suffices hm : ∀ m, move closing raw s = .ok m → m.Shortens s from hm _ h
  clear h
  intro m h
  unfold move at h
  split at h
  · simp only [Except.ok.injEq] at h
    exact h ▸ moveRaw_shortens _ s
  · simp only at h
    split at h
    · next hp =>
      simp only [Except.ok.injEq] at h
      have hw := congrArg List.length (Text.run_written (fun c => !isSpecial c) s)
      have hl : 0 < (Text.run (fun c => !isSpecial c) s).1.length :=
        List.length_pos_iff.2 (by simpa using hp)
      rw [List.length_append] at hw
      rw [← h, Move.Shortens]
      omega
    · split at h
      · exact moveMarkup_shortens h
      · simp only [Except.ok.injEq] at h
        exact h ▸ moveReference_shortens closing _
      · simp only [Except.ok.injEq] at h
        rw [← h]
        trivial

/-! ## Passes -/

/-- What a pass over a text reports and leaves. -/
structure Pass where
  /-- The events in the order of the text. -/
  events : List Event
  /-- The raw element that is open behind them. -/
  raw : Option RawElement
  /-- The text that is left. -/
  rest : Text
  deriving DecidableEq, Repr

/-- The work behind `pass`; `done` is in reverse. -/
def passFrom (closing : Bool) (done : List Event) (raw : Option RawElement) (s : Text) :
    Except Malformed Pass :=
  if s.isEmpty then .ok ⟨done.reverse, raw, []⟩
  else
    match _h : move closing raw s with
    | .error e => .error e
    | .ok (.halt events rest) => .ok ⟨(events.reverse ++ done).reverse, raw, rest⟩
    | .ok (.advance events rest raw') => passFrom closing (events.reverse ++ done) raw' rest
termination_by s.length
decreasing_by exact move_length_lt _h

/-- The moves over a text that starts inside the given raw element. -/
def pass (closing : Bool) (raw : Option RawElement) (s : Text) : Except Malformed Pass :=
  passFrom closing [] raw s

/-- A pass with events before it. -/
def Pass.after (events : List Event) (p : Pass) : Pass := { p with events := events ++ p.events }

theorem passFrom_append (closing : Bool) (done more : List Event) (raw : Option RawElement)
    (s : Text) :
    passFrom closing (done ++ more) raw s =
      (passFrom closing done raw s).map (Pass.after more.reverse) := by
  fun_induction passFrom closing done raw s with
  | case1 done raw s empty =>
    rw [passFrom, if_pos empty]
    simp [Except.map, Pass.after]
  | case2 done raw s filled e h =>
    rw [passFrom, if_neg filled]
    split <;> simp_all [Except.map]
  | case3 done raw s filled events rest h =>
    rw [passFrom, if_neg filled]
    split <;> simp_all [Except.map, Pass.after]
  | case4 done raw s filled events rest raw' h ih =>
    rw [passFrom, if_neg filled, ← ih]
    split <;> simp_all

theorem pass_nil (closing : Bool) (raw : Option RawElement) :
    pass closing raw [] = .ok ⟨[], raw, []⟩ := by
  rw [pass, passFrom, if_pos List.isEmpty_nil]
  rfl

theorem pass_of_error {closing : Bool} {raw : Option RawElement} {s : Text} {e : Malformed}
    (filled : s ≠ []) (h : move closing raw s = .error e) : pass closing raw s = .error e := by
  rw [pass, passFrom, if_neg (by simpa using filled)]
  split <;> simp_all

theorem pass_of_halt {closing : Bool} {raw : Option RawElement} {s rest : Text}
    {events : List Event} (filled : s ≠ []) (h : move closing raw s = .ok (.halt events rest)) :
    pass closing raw s = .ok ⟨events, raw, rest⟩ := by
  rw [pass, passFrom, if_neg (by simpa using filled)]
  split <;> simp_all

/-- A move that goes on comes before the rest of its pass. -/
theorem pass_of_advance {closing : Bool} {raw raw' : Option RawElement} {s rest : Text}
    {events : List Event} (filled : s ≠ [])
    (h : move closing raw s = .ok (.advance events rest raw')) :
    pass closing raw s = (pass closing raw' rest).map (Pass.after events) := by
  have step : pass closing raw s = passFrom closing ([] ++ events.reverse) raw' rest := by
    rw [pass, passFrom, if_neg (by simpa using filled)]
    split <;> simp_all
  rw [step, passFrom_append, List.reverse_reverse]
  rfl

/-! ## Readers -/

/-- A reader between two chunks. -/
structure Reader where
  /-- The text that waits for more. -/
  pending : Text := []
  /-- The raw element that is open. -/
  raw : Option RawElement := none
  deriving DecidableEq, Repr

/-- The events that one more chunk allows. -/
def Reader.feed (reader : Reader) (chunk : Text) : Except Malformed (List Event × Reader) :=
  (pass false reader.raw (reader.pending ++ chunk)).map fun p =>
    (p.events, { pending := p.rest, raw := p.raw })

/-- The events of the text that is left after the last pass. -/
def Pass.leftover (p : Pass) : List Event :=
  if p.rest.isEmpty || p.raw.isSome then [] else [.text p.rest]

/-- The events at the end of the input. -/
def Reader.close (reader : Reader) : Except Malformed (List Event) :=
  (pass true reader.raw reader.pending).map fun p => p.events ++ p.leftover

end PageAssembly.Markup
