import PageAssembly.Proofs.Markup.Decision
import PageAssembly.Proofs.Markup.Forest

/-!
# Passing over tags without attributes

A tag that consists of a name alone is one token, whatever follows it.

## Main definitions

* `Markup.PassesOver` — a pass spells the symbols of a text and goes on behind it

## Main statements

* `Markup.passesOver_startTag`, `Markup.passesOver_selfClosedTag`, `Markup.passesOver_endTag` — the
  tags of a name made of letters
* `Markup.passesOver_chars` — text without markup and references
-/

namespace PageAssembly.Markup

/-! ## Letters -/

section Letters

variable {c : Char}

theorem toNat_of_isLetter (h : Text.isLetter c = true) :
    97 ≤ c.toNat ∧ c.toNat ≤ 122 ∨ 65 ≤ c.toNat ∧ c.toNat ≤ 90 := by
  simpa [Text.isLetter, Char.le_def, UInt32.le_iff_toNat_le] using h

/-- **A property of characters holds of the letters** when it holds of those with small codes. -/
theorem forall_isLetter {P : Char → Prop}
    (h : ∀ n < 128, Text.isLetter (Char.ofNat n) = true → P (Char.ofNat n)) {c : Char}
    (letter : Text.isLetter c = true) : P c := by
  have small : c.toNat < 128 := by
    have := toNat_of_isLetter letter
    omega
  have held := h c.toNat small
  rw [Char.ofNat_toNat] at held
  exact held letter

theorem endsTagName_of_isLetter (h : Text.isLetter c = true) : endsTagName c = false :=
  forall_isLetter (P := fun c => endsTagName c = false) (by decide) h

theorem precedesAttribute_of_isLetter (h : Text.isLetter c = true) : precedesAttribute c = false :=
  forall_isLetter (P := fun c => precedesAttribute c = false) (by decide) h

theorem isBlank_of_isLetter (h : Text.isLetter c = true) : Text.isBlank c = false :=
  forall_isLetter (P := fun c => Text.isBlank c = false) (by decide) h

theorem ne_gt_of_isLetter (h : Text.isLetter c = true) : c ≠ '>' :=
  forall_isLetter (P := fun c => c ≠ '>') (by decide) h

theorem isLetter_of_small (h : 'a' ≤ c ∧ c ≤ 'z') : Text.isLetter c = true := by
  simp [Text.isLetter, h]

theorem lowerAt_of_small (h : 'a' ≤ c ∧ c ≤ 'z') (passed rest : Text) :
    Text.lowerAt passed c rest = [c] := by
  obtain ⟨dotted, sigma, same⟩ : c ≠ 'İ' ∧ c ≠ 'Σ' ∧ Text.lowerChar c = c :=
    forall_isLetter (P := fun c => 'a' ≤ c ∧ c ≤ 'z' → c ≠ 'İ' ∧ c ≠ 'Σ' ∧ Text.lowerChar c = c)
      (by decide) (isLetter_of_small h) h
  rw [Text.lowerAt, if_neg dotted, if_neg sigma, same]

/-- A name in small letters is its own lower case. -/
theorem lower_of_small {name : Text} (h : ∀ c ∈ name, 'a' ≤ c ∧ c ≤ 'z') : name.lower = name := by
  have go (passed : Text) : Text.lowerFrom passed [] name = name := by
    induction name generalizing passed with
    | nil => rfl
    | cons c name ih =>
        rw [Text.lowerFrom, lowerAt_of_small (h c List.mem_cons_self), Text.lowerFrom_eq,
          ih fun d hd => h d (List.mem_cons_of_mem c hd)]
        rfl
  exact go []

end Letters

/-! ## Names -/

theorem run_of_forall {p : Char → Bool} {name : Text} {stop : Char}
    (inside : ∀ c ∈ name, p c = true) (outside : p stop = false) (more : Text) :
    Text.run p (name ++ stop :: more) = (name, stop :: more) := by
  rw [Text.run, List.takeWhile_append_of_pos inside, List.dropWhile_append_of_pos inside]
  simp [outside]

theorem cut?_of_not_mem {stop : Char} {before : Text} (outside : stop ∉ before) (rest : Text) :
    Text.cut? [stop] (before ++ stop :: rest) = some (before, rest) := by
  have go (seen : Text) : Text.searchFrom (Text.after? [stop]) seen (before ++ stop :: rest) =
      some (seen.reverse ++ before, rest) := by
    induction before generalizing seen with
    | nil => simp [Text.searchFrom, Text.after?]
    | cons c before ih =>
        rw [List.mem_cons, not_or] at outside
        have absent : Text.after? [stop] (c :: (before ++ stop :: rest)) = none := by
          simp [Text.after?, outside.1]
        rw [List.cons_append, Text.searchFrom, absent]
        simp only
        rw [ih outside.2]
        simp
  exact go []

section Names

variable {name : Text} (letters : ∀ c ∈ name, Text.isLetter c = true) (filled : name ≠ [])

include letters filled

/-- A tag whose name is followed by its end has nothing but the name. -/
theorem StartTag.read_of_letters {stop : Char} (ends : endsTagName stop = true) {tail : Text}
    (gapless : readGap (stop :: tail) = ([], stop :: tail)) :
    StartTag.read (name ++ stop :: tail) = (⟨name, [], []⟩, stop :: tail) := by
  have run : Text.run (fun c => !endsTagName c) (name ++ stop :: tail) = (name, stop :: tail) :=
    run_of_forall (fun c hc => by simp [endsTagName_of_isLetter (letters c hc)])
      (by simp [ends]) tail
  have last : precedesAttribute (name.getLastD '<') = false := by
    rw [List.getLastD_eq_getLast?, List.getLast?_eq_some_getLast filled, Option.getD_some]
    exact precedesAttribute_of_isLetter (letters _ (List.getLast_mem filled))
  have bare : readAttribute? (name.getLastD '<') (stop :: tail) = none := by
    rw [readAttribute?, last]
    rfl
  simp only [StartTag.read, run, gapless, List.append_nil, readAttributes,
    readAttributesFrom_none bare, List.reverse_nil]

theorem moveStartTag_of_letters (more : Text) :
    moveStartTag false (name ++ '>' :: more) = .ok (.advance
      [.mark { kind := startKind name.lower false, text := startTag name, tag := some name.lower }]
      more (opensRaw? name.lower false)) := by
  have gapless : readGap ('>' :: more) = ([], '>' :: more) := rfl
  rw [moveStartTag, StartTag.read_of_letters letters filled (by decide) gapless]
  simp [StartTag.ending, moveTag, StartTag.written, startTag]

theorem moveStartTag_of_letters_selfClosing (more : Text) :
    moveStartTag false (name ++ '/' :: '>' :: more) = .ok (.advance
      [.mark { kind := .selfClosing, text := selfClosedTag name, tag := some name.lower }]
      more none) := by
  have gapless : readGap ('/' :: '>' :: more) = ([], '/' :: '>' :: more) := rfl
  rw [moveStartTag, StartTag.read_of_letters letters filled (by decide) gapless]
  simp [StartTag.ending, moveTag, StartTag.written, selfClosedTag, startKind, opensRaw?]

theorem move_of_letters {tail : Text} :
    move false none ('<' :: name ++ tail) = moveStartTag false (name ++ tail) := by
  obtain ⟨c, rest, rfl⟩ := List.exists_cons_of_ne_nil filled
  have first : Text.isLetter c = true := letters c List.mem_cons_self
  simp [move, Text.run, isSpecial, moveMarkup, first]

/-- The move over a start tag is a token, and the content of the element may be raw. -/
theorem move_startTag_of_letters (more : Text) :
    move false none (startTag name ++ more) = .ok (.advance
      [.mark { kind := startKind name.lower false, text := startTag name, tag := some name.lower }]
      more (RawElement.ofName? name.lower)) := by
  have moved := moveStartTag_of_letters letters filled more
  rw [opensRaw?, if_neg Bool.false_ne_true] at moved
  rw [← moved, ← move_of_letters letters filled, startTag]
  simp

/-- The move over a tag that closes itself is a token. -/
theorem move_selfClosedTag_of_letters (more : Text) :
    move false none (selfClosedTag name ++ more) = .ok (.advance
      [.mark { kind := .selfClosing, text := selfClosedTag name, tag := some name.lower }]
      more none) := by
  rw [← moveStartTag_of_letters_selfClosing letters filled more,
    ← move_of_letters letters filled, selfClosedTag]
  simp

theorem closingName?_of_letters : closingName? name = some name := by
  obtain ⟨c, rest, rfl⟩ := List.exists_cons_of_ne_nil filled
  have first : Text.isLetter c = true := letters c List.mem_cons_self
  have inside : ∀ d ∈ rest, isClosingName d = true := by
    intro d hd
    simp [isClosingName, letters d (List.mem_cons_of_mem c hd)]
  have start : Text.trimStart (c :: rest) = c :: rest := by
    simp [Text.trimStart, isBlank_of_isLetter first]
  have run : Text.run isClosingName rest = (rest, []) := by
    rw [Text.run, List.takeWhile_eq_self_iff.mpr inside, List.dropWhile_eq_nil_iff.mpr inside]
  rw [closingName?, start]
  simp [first, run, Text.isAllBlank]

theorem endTagEvents_of_letters : endTagEvents name =
    [.mark { kind := .endTag, text := endTag name, tag := some name.lower }] := by
  have closing := closingName?_of_letters letters filled
  unfold endTagEvents
  rw [closing]
  simp only [endTagToken, endTag]

theorem readEndTag?_of_letters (more : Text) : readEndTag? ('<' :: '/' :: (name ++ '>' :: more)) =
    some ([.mark { kind := .endTag, text := endTag name, tag := some name.lower }], more) := by
  have outside : '>' ∉ name := fun member => ne_gt_of_isLetter (letters _ member) rfl
  have opened : Text.after? ['<', '/'] ('<' :: '/' :: (name ++ '>' :: more)) =
      some (name ++ '>' :: more) := Text.after?_eq_some.mpr rfl
  rw [readEndTag?, opened, Option.bind_some, cut?_of_not_mem outside, Option.map_some]
  simp only [endTagEvents_of_letters letters filled]

theorem move_endTag_of_letters (more : Text) :
    move false none (endTag name ++ more) = .ok (.advance
      [.mark { kind := .endTag, text := endTag name, tag := some name.lower }] more none) := by
  have slash : Text.isLetter '/' = false := by decide
  have split : endTag name ++ more = '<' :: '/' :: (name ++ '>' :: more) := by simp [endTag]
  have moved : moveMarkup false ('/' :: (name ++ '>' :: more)) =
      .ok (moveFound false ('/' :: (name ++ '>' :: more))
        (readEndTag? ('<' :: '/' :: (name ++ '>' :: more)))) := by
    simp [moveMarkup, slash]
  rw [split, move]
  simp only [Text.run, isSpecial, moved, readEndTag?_of_letters letters filled]
  rfl

end Names

/-! ## Passes -/

/-- **A pass spells the symbols of a text** and goes on behind it, whatever follows. -/
def PassesOver (s : Text) (symbols : List Symbol) : Prop :=
  ∀ more, (⟨none, s ++ more⟩ : Place).pass false =
    ((⟨none, more⟩ : Place).pass false).map (Place.spell symbols)

theorem passesOver_nil : PassesOver [] [] := by
  intro more
  rw [List.nil_append]
  cases (⟨none, more⟩ : Place).pass false <;> rfl

theorem PassesOver.append {s t : Text} {first later : List Symbol} (passes : PassesOver s first)
    (onward : PassesOver t later) : PassesOver (s ++ t) (first ++ later) := by
  intro more
  rw [List.append_assoc, passes, onward]
  cases (⟨none, more⟩ : Place).pass false with
  | error e => rfl
  | ok read => simp only [Except.map, Place.spell, List.append_assoc]

theorem isSpecial_of_not_mem {s : Text} (unopened : '<' ∉ s) (unreferenced : '&' ∉ s) :
    ∀ c ∈ s, isSpecial c = false := by
  intro c inside
  rw [isSpecial, Bool.or_eq_false_iff]
  constructor
  · exact beq_eq_false_iff_ne.mpr fun same => unopened (same ▸ inside)
  · exact beq_eq_false_iff_ne.mpr fun same => unreferenced (same ▸ inside)

/-- Text without markup and references is spelled character by character. -/
theorem passesOver_chars {s : Text} (plain : ∀ c ∈ s, isSpecial c = false) :
    PassesOver s (chars s) := by
  induction s with
  | nil => exact passesOver_nil
  | cons c s ih =>
      have first : PassesOver [c] [.char c] := by
        intro more
        exact Place.pass_plain more (plain c List.mem_cons_self)
      exact first.append (ih fun d hd => plain d (List.mem_cons_of_mem c hd))

/-- A move over a text whatever follows makes a pass over it. -/
theorem passesOver_of_move {s : Text} {token : Token} (filled : s ≠ [])
    (moves : ∀ more, move false none (s ++ more) = .ok (.advance [.mark token] more none)) :
    PassesOver s [.token token] := by
  intro more
  exact Place.pass_of_move (List.append_ne_nil_of_left_ne_nil filled more) (moves more)

section Tags

variable {name : Text} (letters : ∀ c ∈ name, Text.isLetter c = true) (filled : name ≠ [])

include letters filled

/-- A start tag of an element whose content is not raw is a token. -/
theorem passesOver_startTag (cooked : RawElement.ofName? name.lower = none) :
    PassesOver (startTag name)
      [.token { kind := startKind name.lower false, text := startTag name,
                tag := some name.lower }] := by
  refine passesOver_of_move (List.cons_ne_nil _ _) fun more => ?_
  rw [move_startTag_of_letters letters filled, cooked]

/-- A tag that closes itself is a token. -/
theorem passesOver_selfClosedTag : PassesOver (selfClosedTag name)
    [.token { kind := .selfClosing, text := selfClosedTag name, tag := some name.lower }] :=
  passesOver_of_move (List.cons_ne_nil _ _) (move_selfClosedTag_of_letters letters filled)

/-- An end tag is a token. -/
theorem passesOver_endTag : PassesOver (endTag name)
    [.token { kind := .endTag, text := endTag name, tag := some name.lower }] :=
  passesOver_of_move (List.cons_ne_nil _ _) (move_endTag_of_letters letters filled)

end Tags

end PageAssembly.Markup
