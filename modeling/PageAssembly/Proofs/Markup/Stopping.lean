import Mathlib.Tactic.SplitIfs
import PageAssembly.Markup.Layout
import PageAssembly.Proofs.Markup.Portion

/-!
# What stops the reader

The reader stops at a marked section that it does not know and at a number with too many digits, and
at nothing else.  An input without these is read to its end, however broken its markup is.

## Main definitions

* `Malformed.StandsIn` — the source holds what the reader stops at
* `Markup.MarkupCall`, `Markup.Call` — which reader is called for the text at a place

## Main statements

* `Markup.move_call` — each reader is called where its own markup starts, and no place is without
  one
* `Markup.move_error` — what stops a move stands in its text
* `Markup.standsIn_of_failure` — what stops the reader stands in the input
* `Markup.tokenize_succeeds` — an input without marked sections and oversized numbers has all its
  tokens and a layout

### Why the calls are told apart

A reader that is called at the wrong place has nothing to say about its text, and the functions for
single constructs give no result there.  They are never asked: the first characters of the text
decide which of them is called.
-/

namespace PageAssembly.Markup

/-- **The source holds what the reader stops at.**  A message about a section without a name shows
the section's start, a message about an unknown section its keyword. -/
def Malformed.StandsIn (source : Text) : Malformed → Prop
  | .expectedName opening => ['<', '!', '['] <+: opening ∧ opening <:+: source
  | .unknownSection keyword => '<' :: '!' :: '[' :: keyword <:+: source
  | .oversizedReference digits =>
    ∃ number : Text, number.length = digits ∧ Text.digitLimit < digits ∧
      (∀ c ∈ number, Text.isDigit c = true) ∧ '&' :: '#' :: number <:+: source

/-- What stands in a part of the source stands in the source. -/
theorem Malformed.StandsIn.mono {e : Malformed} {part source : Text} (h : e.StandsIn part)
    (inside : part <:+: source) : e.StandsIn source := by
  cases e with
  | expectedName opening => exact ⟨h.1, h.2.trans inside⟩
  | unknownSection keyword => exact List.IsInfix.trans h inside
  | oversizedReference digits =>
      obtain ⟨number, length, many, digital, stands⟩ := h
      exact ⟨number, length, many, digital, stands.trans inside⟩

/-! ## Failures -/

section Failure

variable {α β : Type} {read : Except Malformed α} {e : Malformed}

theorem eq_error_of_map {f : α → β} (h : read.map f = .error e) : read = .error e := by
  cases read with
  | error e' => exact congrArg Except.error (Except.error.inj h)
  | ok a => cases h

theorem eq_error_of_bind {f : α → Except Malformed β} (h : read.bind f = .error e) :
    read = .error e ∨ ∃ a, read = .ok a ∧ f a = .error e := by
  cases read with
  | error e' => exact Or.inl (congrArg Except.error (Except.error.inj h))
  | ok a => exact Or.inr ⟨a, rfl, h⟩

end Failure

/-! ## Calls -/

/-- **Which reader is called at a `<`**, and the move that is made of it. -/
inductive MarkupCall (closing : Bool) : Text → Except Malformed Move → Prop
  /-- Nothing stands behind the `<`. -/
  | last : MarkupCall closing [] (.ok (.halt [] ['<']))
  /-- A letter starts a start tag. -/
  | startTag (c : Char) (s : Text) : Text.isLetter c = true →
    MarkupCall closing (c :: s) (moveStartTag closing (c :: s))
  /-- A slash starts an end tag. -/
  | endTag (s : Text) :
    MarkupCall closing ('/' :: s)
      (.ok (moveFound closing ('/' :: s) (readEndTag? ('<' :: '/' :: s))))
  /-- `!--` starts a comment. -/
  | comment (s : Text) :
    MarkupCall closing ('!' :: '-' :: '-' :: s)
      (.ok (moveFound closing ('!' :: '-' :: '-' :: s)
        (readComment? ('<' :: '!' :: '-' :: '-' :: s))))
  /-- A question mark starts an instruction. -/
  | instruction (s : Text) :
    MarkupCall closing ('?' :: s)
      (.ok (moveFound closing ('?' :: s) (readInstruction? ('<' :: '?' :: s))))
  /-- Any other `!` starts a declaration. -/
  | declaration (s : Text) : Text.startsWith ('!' :: s) ['!', '-', '-'] = false →
    MarkupCall closing ('!' :: s)
      ((readDeclaration ('<' :: '!' :: s)).map (moveFound closing ('!' :: s)))
  /-- Any other character makes the `<` text. -/
  | text (c : Char) (s : Text) : Text.isLetter c = false → c ∉ ['/', '?', '!'] →
    MarkupCall closing (c :: s) (.ok (.advance [.text ['<']] (c :: s) none))

/-- **Which reader is called** for the text at a place, and the move that is made of it. -/
inductive Call (closing : Bool) : Option RawElement → Text → Except Malformed Move → Prop
  /-- A raw element is open. -/
  | raw (element : RawElement) (s : Text) : Call closing (some element) s (.ok (moveRaw element s))
  /-- Text stands in front of the next markup or reference. -/
  | plain (piece rest : Text) : piece ≠ [] →
    Call closing none (piece ++ rest) (.ok (.advance [.text piece] rest none))
  /-- A `<` starts markup. -/
  | markup {s : Text} {m : Except Malformed Move} : MarkupCall closing s m →
    Call closing none ('<' :: s) m
  /-- An `&` starts a reference. -/
  | reference (s : Text) : Call closing none ('&' :: s) (.ok (moveReference closing s))

section Calls

variable {closing : Bool} {raw : Option RawElement} {s opening body : Text} {e : Malformed}

theorem moveMarkup_call (closing : Bool) (s : Text) :
    MarkupCall closing s (moveMarkup closing s) := by
  cases s with
  | nil => exact .last
  | cons c s =>
      rw [moveMarkup]
      split_ifs with letter slash dashes question mark
      · exact .startTag c s letter
      · cases eq_of_beq slash
        exact .endTag s
      · obtain ⟨rest, found⟩ := Option.isSome_iff_exists.mp dashes
        rw [Text.after?_eq_some.mp found]
        exact .comment rest
      · cases eq_of_beq question
        exact .instruction s
      · cases eq_of_beq mark
        exact .declaration s (by simpa using dashes)
      · simp only [beq_iff_eq] at slash question mark
        exact .text c s (by simpa using letter) (by simp [slash, question, mark])

/-- **Each reader is called where its own markup starts**, and no place is without one. -/
theorem move_call (filled : s ≠ []) : Call closing raw s (move closing raw s) := by
  cases raw with
  | some element => exact .raw element s
  | none =>
      simp only [move]
      have whole := Text.run_written (fun c => !isSpecial c) s
      split
      · next plain =>
          have piece : (Text.run (fun c => !isSpecial c) s).1 ≠ [] := by simpa using plain
          have call := @Call.plain closing _ (Text.run (fun c => !isSpecial c) s).2 piece
          rwa [whole] at call
      · next special =>
          cases s with
          | nil => exact absurd rfl filled
          | cons c s =>
              have starts : isSpecial c = true := by
                by_contra plain
                simp [Text.run, plain] at special
              rcases (by simpa [isSpecial] using starts : c = '<' ∨ c = '&') with rfl | rfl
              · exact .markup (moveMarkup_call closing s)
              · exact .reference s

/-! ## What stops a move -/

/-- A section that is not read is quoted from its start. -/
theorem readSection_error (h : readSection opening body = .error e) :
    e = .expectedName opening ∨ ∃ keyword, e = .unknownSection keyword ∧ keyword <+: body := by
  unfold readSection at h
  split at h
  · cases h
  · next c s =>
      simp only at h
      split at h
      · cases h
        exact Or.inl rfl
      · split at h
        · cases h
        · split at h
          · cases h
            refine Or.inr ⟨_, rfl, ?_⟩
            refine ⟨(Text.run Text.isBlank (Text.run isSectionName s).2).2, ?_⟩
            simp [Text.run_written]
          · cases h

theorem readDeclaration_error (h : readDeclaration s = .error e) : e.StandsIn s := by
  unfold readDeclaration at h
  split at h
  · next body =>
      rcases readSection_error h with rfl | ⟨keyword, rfl, quoted⟩
      · refine ⟨?_, (List.take_prefix _ _).isInfix⟩
        exact List.prefix_append ['<', '!', '['] _
      · exact ((List.prefix_append_right_inj ['<', '!', '[']).mpr quoted).isInfix
  · split at h <;> cases h
  · cases h

/-- A number with too many digits stands in the text where it is found. -/
theorem oversizedReference?_standsIn {digits : Nat}
    (h : oversizedReference? Text.digitLimit s = some digits) :
    (Malformed.oversizedReference digits).StandsIn s := by
  rw [oversizedReference?, Option.map_eq_some_iff] at h
  obtain ⟨⟨before, digits⟩, found, rfl⟩ := h
  obtain ⟨rest, split, many⟩ := Text.search_eq_some found
  simp only [oversizedAt?, Option.bind_eq_some_iff] at many
  obtain ⟨body, opened, many⟩ := many
  split at many
  · next above =>
      cases many
      refine ⟨(Text.run Text.isDigit body).1, rfl, above, ?_, ?_⟩
      · exact List.all_eq_true.mp List.all_takeWhile
      · refine ⟨before, (Text.run Text.isDigit body).2, ?_⟩
        rw [split, Text.after?_eq_some.mp opened]
        conv => rhs; rw [← Text.run_written Text.isDigit body]
        simp
  · cases many

/-- The value of an attribute stands in its tag. -/
theorem StartTag.value_infix_written {tag : StartTag} {a : Attribute}
    (member : a ∈ tag.attributes) : a.value <:+: tag.written := by
  have value : a.value <:+: a.written := ⟨a.name ++ a.sign, a.gap, by simp [Attribute.written]⟩
  have attributes : a.written <:+: tag.attributes.flatMap Attribute.written :=
    List.infix_of_mem_flatten (List.mem_map_of_mem member)
  exact (value.trans attributes).trans (List.suffix_append _ _).isInfix

theorem moveTag_error {tag : StartTag} {selfClosing : Bool} {rest : Text}
    (h : moveTag tag selfClosing rest = .error e) : e.StandsIn tag.written := by
  simp only [moveTag] at h
  split at h
  · next digits found =>
      cases h
      obtain ⟨a, member, oversized⟩ := List.exists_of_findSome?_eq_some found
      exact (oversizedReference?_standsIn oversized).mono
        (StartTag.value_infix_written member)
  · cases h

theorem moveStartTag_error (h : moveStartTag closing s = .error e) : e.StandsIn ('<' :: s) := by
  have tag : (StartTag.read s).1.written <:+: '<' :: s := by
    have front := List.prefix_append (StartTag.read s).1.written (StartTag.read s).2
    rw [StartTag.read_written] at front
    exact front.isInfix
  simp only [moveStartTag] at h
  split at h
  · exact (moveTag_error h).mono tag
  · exact (moveTag_error h).mono tag
  · cases h
  · cases h

/-- **What stops a move stands in its text.** -/
theorem move_error (filled : s ≠ []) (h : move closing raw s = .error e) : e.StandsIn s := by
  have call : Call closing raw s (move closing raw s) := move_call filled
  rw [h] at call
  generalize same : Except.error e = found at call
  cases call with
  | raw element s => cases same
  | plain piece rest _ => cases same
  | reference s => cases same
  | markup call =>
      cases call with
      | startTag c s _ => exact moveStartTag_error same.symm
      | declaration s _ => exact readDeclaration_error (eq_error_of_map same.symm)
      | _ => cases same

end Calls

/-! ## Inputs -/

/-- What stops a pass stands in what it reads. -/
theorem Place.standsIn_of_portions {closing : Bool} {p : Place} {e : Malformed}
    (h : p.portions closing = .error e) : e.StandsIn p.rest := by
  fun_induction Place.portions closing p with
  | case1 p empty => cases h
  | case2 p filled e' moved =>
      cases h
      exact move_error filled moved
  | case3 p filled events rest moved => cases h
  | case4 p filled events rest raw moved ih =>
      exact (ih (eq_error_of_map h)).mono (move_rest_suffix moved).isInfix

theorem standsIn_of_portionsFrom {p : Place} {chunks : List Text} {e : Malformed}
    (h : portionsFrom p chunks = .error e) : e.StandsIn (p.rest ++ chunks.flatten) := by
  induction chunks generalizing p with
  | nil =>
      rw [List.flatten_nil, List.append_nil]
      rw [portionsFrom] at h
      exact Place.standsIn_of_portions (eq_error_of_map h)
  | cons chunk chunks ih =>
      rw [List.flatten_cons, ← List.append_assoc]
      rw [portionsFrom] at h
      rcases eq_error_of_bind h with stopped | ⟨read, passed, onward⟩
      · exact (Place.standsIn_of_portions stopped).mono (List.prefix_append _ _).isInfix
      · have taken : read.1.flatMap Portion.source ++ read.2.rest = p.rest ++ chunk :=
          Place.source_portions passed
        refine (ih (eq_error_of_map onward)).mono ⟨read.1.flatMap Portion.source, [], ?_⟩
        rw [← taken]
        simp

/-- **What stops the reader stands in the input.** -/
theorem standsIn_of_failure {chunks : List Text} {e : Malformed}
    (h : (tokenize chunks).failure = some e) : e.StandsIn chunks.flatten := by
  cases taken : portions chunks with
  | ok found =>
      rw [tokenize_of_portions taken] at h
      cases h
  | error e' =>
      have stands := standsIn_of_portionsFrom taken
      have failed : readAll chunks = .error e' := by
        rw [readAll, readFrom_eq_portionsFrom, ← portions, taken]
        rfl
      rw [tokenize_of_error failed] at h
      cases h
      exact stands

theorem exists_unclosed_of_success {chunks : List Text} (h : (tokenize chunks).failure = none) :
    ∃ unclosed, (layout chunks).ending = .ok unclosed := by
  rw [layout, Layout.ofTokens, h]
  exact ⟨_, rfl⟩

/-- **Broken markup never stops the reader.**  An input without marked sections and without decimal
references of more than 4300 digits has all its tokens and a layout. -/
theorem tokenize_succeeds (chunks : List Text) (sections : ¬ ['<', '!', '['] <:+: chunks.flatten)
    (numbers : ∀ number : Text, (∀ c ∈ number, Text.isDigit c = true) →
      '&' :: '#' :: number <:+: chunks.flatten → number.length ≤ 4300) :
    (tokenize chunks).failure = none ∧ ∃ unclosed, (layout chunks).ending = .ok unclosed := by
  suffices success : (tokenize chunks).failure = none from
    ⟨success, exists_unclosed_of_success success⟩
  by_contra failed
  obtain ⟨e, failed⟩ := Option.ne_none_iff_exists'.mp failed
  have stands := standsIn_of_failure failed
  cases e with
  | expectedName opening => exact sections (stands.1.isInfix.trans stands.2)
  | unknownSection keyword =>
      exact sections ((List.prefix_append ['<', '!', '['] keyword).isInfix.trans stands)
  | oversizedReference digits =>
      obtain ⟨number, rfl, many, digital, inside⟩ := stands
      exact absurd (numbers number digital inside) (Nat.not_le.mpr many)

/-- A tag, a quote, a reference, a comment and a raw element are broken off. -/
theorem tokenize_succeeds_broken :
    let chunks : List Text :=
      [['<', 'p', ' ', 't', '=', '"', '&', '#', '6', '5', '>', '<'], ['/', 'i', ' ', '&', '#'], [],
        ['<', '!', '-', '<', 's', 'c', 'r', 'i', 'p', 't', '>', '<', '/', 's']]
    ¬ ['<', '!', '['] <:+: chunks.flatten ∧ (tokenize chunks).failure = none ∧
      ∃ unclosed, (layout chunks).ending = .ok unclosed := by
  intro chunks
  have sections : ¬ ['<', '!', '['] <:+: chunks.flatten := Text.cut?_eq_none_iff.mp rfl
  refine ⟨sections, tokenize_succeeds chunks sections fun number _ inside => ?_⟩
  have short : number.length + 2 ≤ 31 := inside.length_le
  omega

end PageAssembly.Markup
