import PageAssembly.Proofs.Markup.PlainTag

/-!
# Tags that arrive in chunks

A tag without attributes is one token however it is cut: a reader waits inside it and goes over it
when it is whole.

## Main definitions

* `Markup.Indivisible` — a reader waits inside a text and goes over it when it is whole
* `Markup.ReadsOver` — a reader goes over a text, however it is cut

## Main statements

* `Indivisible.readsOver` — an indivisible text may be cut anywhere
* `Markup.readsOver_startTag`, `Markup.readsOver_selfClosedTag`, `Markup.readsOver_endTag`,
  `Markup.readsOver_chars` — tags of a name made of letters, and text
* `Markup.readFrom_raw` — an open raw element keeps text without tags to itself
-/

namespace PageAssembly.Markup

variable {s t : Text} {symbols first later : List Symbol} {raw : Option RawElement}

/-- **A text that is read at once**: a reader waits inside it, and goes over it when it is whole,
whatever follows. -/
structure Indivisible (s : Text) (symbols : List Symbol) (raw : Option RawElement) : Prop where
  /-- There is something to read. -/
  filled : s ≠ []
  /-- The whole text is gone over. -/
  passes : ∀ more, (⟨none, s ++ more⟩ : Place).pass false =
    ((⟨raw, more⟩ : Place).pass false).map (Place.spell symbols)
  /-- A part of it is waited in. -/
  waits : ∀ front back, s = front ++ back → back ≠ [] → (⟨none, front⟩ : Place).Waits

/-- **A reader goes over a text** in front of any other one, however the two are cut. -/
def ReadsOver (s : Text) (symbols : List Symbol) (raw : Option RawElement) : Prop :=
  ∀ (tail : Text) (chunks : List Text), chunks.flatten = s ++ tail → ∃ chunks' : List Text,
    chunks'.flatten = tail ∧
      readFrom ⟨none, []⟩ chunks = (readFrom ⟨raw, []⟩ chunks').map (symbols ++ ·)

theorem readFrom_chunk_of_waits {chunk : Text} (waits : (⟨raw, t ++ chunk⟩ : Place).Waits)
    (chunks : List Text) :
    readFrom ⟨raw, t⟩ (chunk :: chunks) = readFrom ⟨raw, t ++ chunk⟩ chunks := by
  rw [readFrom_cons, Place.extend_mk, Place.pass_of_waits waits, Except.bind]
  cases readFrom ⟨raw, t ++ chunk⟩ chunks <;> rfl

theorem Indivisible.readFrom_chunk (whole : Indivisible s symbols raw) {front chunk more : Text}
    (split : front ++ chunk = s ++ more) (chunks : List Text) :
    readFrom ⟨none, front⟩ (chunk :: chunks) =
      (readFrom ⟨raw, []⟩ (more :: chunks)).map (symbols ++ ·) := by
  rw [readFrom_cons, readFrom_cons, Place.extend_mk, Place.extend_mk, split, whole.passes,
    List.nil_append]
  cases (⟨raw, more⟩ : Place).pass false with
  | error e => rfl
  | ok read =>
      simp only [Except.map, Except.bind, Place.spell]
      cases readFrom read.2 chunks with
      | error e => rfl
      | ok later => simp only [List.append_assoc]

/-- **An indivisible text may be cut anywhere.** -/
theorem Indivisible.readsOver (whole : Indivisible s symbols raw) : ReadsOver s symbols raw := by
  -- on the chunks; the part of the text that has arrived is carried along
  have go (tail : Text) (chunks : List Text) : ∀ front back, s = front ++ back → back ≠ [] →
      chunks.flatten = back ++ tail → ∃ chunks' : List Text, chunks'.flatten = tail ∧
        readFrom ⟨none, front⟩ chunks = (readFrom ⟨raw, []⟩ chunks').map (symbols ++ ·) := by
    induction chunks with
    | nil =>
        intro front back _ filled arrives
        exact absurd (List.append_eq_nil_iff.mp arrives.symm).1 filled
    | cons chunk chunks ih =>
        intro front back split filled arrives
        rw [List.flatten_cons, List.append_eq_append_iff] at arrives
        rcases arrives with ⟨back', rfl, arrives⟩ | ⟨more, rfl, rfl⟩
        · by_cases arrived : back' = []
          · subst arrived
            rw [List.append_nil] at split
            refine ⟨[] :: chunks, by simpa using arrives, whole.readFrom_chunk ?_ chunks⟩
            rw [List.append_nil, split]
          · rw [← List.append_assoc] at split
            obtain ⟨chunks', tail', read⟩ := ih (front ++ chunk) back' split arrived arrives
            refine ⟨chunks', tail', ?_⟩
            rw [readFrom_chunk_of_waits (whole.waits _ _ split arrived), read]
        · refine ⟨more :: chunks, rfl, whole.readFrom_chunk ?_ chunks⟩
          rw [split, List.append_assoc]
  exact fun tail chunks => go tail chunks [] s rfl whole.filled

theorem readsOver_nil : ReadsOver [] [] none := by
  intro tail chunks arrives
  refine ⟨chunks, arrives, ?_⟩
  cases readFrom ⟨none, []⟩ chunks <;> rfl

theorem ReadsOver.append (reads : ReadsOver s first none) (onward : ReadsOver t later raw) :
    ReadsOver (s ++ t) (first ++ later) raw := by
  intro tail chunks arrives
  rw [List.append_assoc] at arrives
  obtain ⟨chunks', arrives', read⟩ := reads _ chunks arrives
  obtain ⟨chunks'', arrives'', read'⟩ := onward tail chunks' arrives'
  exact ⟨chunks'', arrives'', by rw [read, read', readFrom_map_append]⟩

/-- Text without markup and references is read character by character. -/
theorem readsOver_chars (plain : ∀ c ∈ s, isSpecial c = false) : ReadsOver s (chars s) none := by
  induction s with
  | nil => exact readsOver_nil
  | cons c s ih =>
      have one : Indivisible [c] [.char c] none :=
        { filled := List.cons_ne_nil _ _
          passes := fun more => Place.pass_plain more (plain c List.mem_cons_self)
          waits := by
            intro front back split filled
            cases front with
            | nil => rfl
            | cons d front =>
                obtain ⟨-, none⟩ := List.cons.inj split
                exact absurd (List.append_eq_nil_iff.mp none.symm).2 filled }
      exact one.readsOver.append (ih fun d inside => plain d (List.mem_cons_of_mem c inside))

/-! ## Tags -/

theorem waits_of_halt {front : Text}
    (halts : move false none ('<' :: front) = .ok (.halt [] ('<' :: front))) :
    (⟨none, '<' :: front⟩ : Place).Waits := by
  rw [Place.Waits, Place.next_special (by decide), halts]
  rfl

/-- A tag is indivisible when its move stands whatever follows and a reader waits behind every part
of what is between its `<` and its `>`. -/
theorem indivisible_of_move {inner : Text} {token : Token}
    (moves : ∀ more, move false none ('<' :: inner ++ ['>'] ++ more) =
      .ok (.advance [.mark token] more raw))
    (halts : ∀ front, front <+: inner →
      move false none ('<' :: front) = .ok (.halt [] ('<' :: front))) :
    Indivisible ('<' :: inner ++ ['>']) [.token token] raw where
  filled := List.cons_ne_nil _ _
  passes more := Place.pass_of_move (List.cons_ne_nil _ _) (moves more)
  waits front back split filled := by
    cases front with
    | nil => rfl
    | cons c front =>
        obtain ⟨rfl, behind⟩ := List.cons.inj split
        have start : front <+: inner ++ ['>'] := ⟨back, behind.symm⟩
        rcases List.prefix_concat_iff.mp start with rfl | inside
        · exact absurd (List.append_right_eq_self.mp behind.symm) filled
        · exact waits_of_halt (halts front inside)

section Tags

variable {name : Text}

section Cut

variable (letters : ∀ c ∈ name, Text.isLetter c = true)

include letters

/-- The start of a tag that is cut off behind its name, or behind a slash. -/
theorem StartTag.read_of_letters_cut {gap : Text} (cut : gap = [] ∨ gap = ['/']) :
    StartTag.read (name ++ gap) = (⟨name, gap, []⟩, []) := by
  have inside : ∀ c ∈ name, (!endsTagName c) = true :=
    fun c hc => by simp [endsTagName_of_isLetter (letters c hc)]
  have run : Text.run (fun c => !endsTagName c) (name ++ gap) = (name, gap) := by
    rw [Text.run, List.takeWhile_append_of_pos inside, List.dropWhile_append_of_pos inside]
    rcases cut with rfl | rfl
    · simp
    · simp [endsTagName]
  have blank : readGap gap = (gap, []) := by
    rcases cut with rfl | rfl <;> rfl
  have bare (previous : Char) : readAttribute? previous [] = none := rfl
  simp only [StartTag.read, run, blank, readAttributes, readAttributesFrom_none (bare _),
    List.reverse_nil]

/-- **A reader waits behind the start of a tag** that is cut off behind its name or a slash. -/
theorem move_of_letters_cut {gap : Text} (cut : gap = [] ∨ name ≠ [] ∧ gap = ['/']) :
    move false none ('<' :: (name ++ gap)) = .ok (.halt [] ('<' :: (name ++ gap))) := by
  by_cases filled : name = []
  · subst filled
    obtain rfl := cut.resolve_right fun h => h.1 rfl
    rfl
  · rw [← List.cons_append, move_of_letters letters filled, moveStartTag,
      StartTag.read_of_letters_cut letters (cut.imp id And.right)]
    rfl

/-- A reader waits behind the start of an end tag. -/
theorem move_endTag_cut :
    move false none ('<' :: '/' :: name) = .ok (.halt [] ('<' :: '/' :: name)) := by
  have outside : '>' ∉ name := fun member => ne_gt_of_isLetter (letters _ member) rfl
  have unread : readEndTag? ('<' :: '/' :: name) = none := by
    have opened : Text.after? ['<', '/'] ('<' :: '/' :: name) = some name :=
      Text.after?_eq_some.mpr rfl
    rw [readEndTag?, opened, Option.bind_some, Option.map_eq_none_iff,
      Option.eq_none_iff_forall_ne_some]
    exact fun _ found => outside (Text.mem_of_cut? found)
  have slash : Text.isLetter '/' = false := by decide
  have moved : move false none ('<' :: '/' :: name) = moveMarkup false ('/' :: name) := rfl
  rw [moved, moveMarkup, slash]
  simp only [Bool.false_eq_true, if_false, beq_self_eq_true, if_true, unread]
  rfl

end Cut

theorem letters_of_start {front : Text} (letters : ∀ c ∈ name, Text.isLetter c = true)
    (start : front <+: name) : ∀ c ∈ front, Text.isLetter c = true :=
  fun c inside => letters c (start.subset inside)

variable (letters : ∀ c ∈ name, Text.isLetter c = true) (filled : name ≠ [])

include letters filled

/-- **A start tag is one token**, and its element may be raw. -/
theorem readsOver_startTag : ReadsOver (startTag name)
    [.token { kind := startKind name.lower false, text := startTag name, tag := some name.lower }]
    (RawElement.ofName? name.lower) := by
  have moves := move_startTag_of_letters letters filled
  refine (indivisible_of_move moves fun front start => ?_).readsOver
  have halts := move_of_letters_cut (letters_of_start letters start) (Or.inl rfl)
  rwa [List.append_nil] at halts

/-- A tag that closes itself is one token. -/
theorem readsOver_selfClosedTag : ReadsOver (selfClosedTag name)
    [.token { kind := .selfClosing, text := selfClosedTag name, tag := some name.lower }] none := by
  have split : selfClosedTag name = '<' :: (name ++ ['/']) ++ ['>'] := by simp [selfClosedTag]
  have whole : Indivisible ('<' :: (name ++ ['/']) ++ ['>'])
      [.token { kind := .selfClosing, text := selfClosedTag name, tag := some name.lower }]
      none := by
    refine indivisible_of_move (fun more => ?_) fun front start => ?_
    · rw [← split]
      exact move_selfClosedTag_of_letters letters filled more
    · rcases List.prefix_concat_iff.mp start with rfl | start
      · exact move_of_letters_cut letters (Or.inr ⟨filled, rfl⟩)
      · have halts := move_of_letters_cut (letters_of_start letters start) (Or.inl rfl)
        rwa [List.append_nil] at halts
  have reads := whole.readsOver
  rwa [← split] at reads

/-- An end tag is one token. -/
theorem readsOver_endTag : ReadsOver (endTag name)
    [.token { kind := .endTag, text := endTag name, tag := some name.lower }] none := by
  have whole : Indivisible ('<' :: ('/' :: name) ++ ['>'])
      [.token { kind := .endTag, text := endTag name, tag := some name.lower }] none := by
    refine indivisible_of_move (move_endTag_of_letters letters filled) fun front start => ?_
    rcases List.prefix_cons_iff.mp start with rfl | ⟨front, rfl, inside⟩
    · rfl
    · exact move_endTag_cut (letters_of_start letters inside)
  exact whole.readsOver

end Tags

/-! ## Raw elements -/

section Raw

variable {element : RawElement}

/-- Without a `<` there is no end tag in view. -/
theorem search_endAt?_eq_none (unopened : '<' ∉ s) : Text.search element.endAt? s = none := by
  rw [Option.eq_none_iff_forall_ne_some]
  rintro ⟨before, inner, rest⟩ found
  obtain ⟨behind, rfl, ends⟩ := Text.search_eq_some found
  obtain ⟨rfl, -⟩ := RawElement.endAt?_eq_some ends
  exact unopened (List.mem_append_right before List.mem_cons_self)

theorem move_raw_of_not_mem (unopened : '<' ∉ s) (closing : Bool) :
    move closing (some element) s = .ok (.halt [] s) := by
  rw [move, moveRaw, search_endAt?_eq_none unopened]

theorem waits_raw_of_not_mem (unopened : '<' ∉ s) : (⟨some element, s⟩ : Place).Waits := by
  cases s with
  | nil => rfl
  | cons c s =>
      rw [Place.Waits, Place.next_raw (List.cons_ne_nil _ _), moveRaw,
        search_endAt?_eq_none unopened]
      rfl

/-- **An open raw element keeps text without tags to itself**: nothing of it is reported, not even
at the end of the input. -/
theorem readFrom_raw (chunks : List Text) (unopened : '<' ∉ s ++ chunks.flatten) :
    readFrom ⟨some element, s⟩ chunks = .ok [] := by
  induction chunks generalizing s with
  | nil =>
      rw [List.flatten_nil, List.append_nil] at unopened
      rw [readFrom_nil, Place.finish, Place.pass]
      cases s with
      | nil => rw [pass_nil]; rfl
      | cons c s =>
          rw [pass_of_halt (List.cons_ne_nil _ _) (move_raw_of_not_mem unopened true)]
          rfl
  | cons chunk chunks ih =>
      rw [List.flatten_cons, ← List.append_assoc] at unopened
      have here : '<' ∉ s ++ chunk := fun member => unopened (List.mem_append_left _ member)
      rw [readFrom_chunk_of_waits (waits_raw_of_not_mem here), ih unopened]

end Raw

end PageAssembly.Markup
