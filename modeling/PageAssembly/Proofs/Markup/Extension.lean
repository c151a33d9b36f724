import Mathlib.Data.List.TakeWhile
import PageAssembly.Markup.Reader
import PageAssembly.Proofs.Text.Extension

/-!
# More text behind markup

End tags, comments, instructions, declarations, the ends of raw text and numeric references are read
in the same way when more text follows.  All but the last end at a `>`, so a position without one
behind it decides nothing.

## Main statements

* `Markup.moveMarkup_append` — a move over markup other than a start tag
* `Markup.moveRaw_append` — a move inside a raw element
* `Markup.readCharacterReference?_append`, `Markup.readCharacterReference?_append_eq_none` — a
  numeric reference, and an `&#` with a semicolon behind it that is none
-/

namespace PageAssembly

namespace Markup

/-! ## Comments, instructions and declarations -/

theorem mem_trimStart {s : Text} (h : '>' ∈ s) : '>' ∈ s.trimStart := by
  induction s with
  | nil => cases h
  | cons c s ih =>
      rw [Text.trimStart, List.dropWhile_cons]
      split
      · next blank =>
          refine ih ((List.mem_cons.mp h).resolve_left ?_)
          rintro rfl
          revert blank
          decide
      · exact h

theorem afterSpaced?_append {marks s : Text} (more : Text) (inside : '>' ∈ s)
    (last : '>' ∉ marks.dropLast) :
    afterSpaced? marks (s ++ more) = (afterSpaced? marks s).map (· ++ more) := by
  induction marks generalizing s with
  | nil => rfl
  | cons m marks ih =>
      have trimmed := List.ne_nil_of_mem (mem_trimStart inside)
      rw [afterSpaced?, afterSpaced?, Text.trimStart_append more trimmed,
        Text.after?_singleton_append more trimmed]
      cases found : Text.after? [m] s.trimStart with
      | none => rfl
      | some rest =>
          cases marks with
          | nil => rfl
          | cons m' marks =>
              rw [List.dropLast_cons_cons, List.mem_cons, not_or] at last
              refine ih (Text.mem_of_after? (mem_trimStart inside) ?_ found) last.2
              exact fun first => last.1 (List.mem_singleton.mp first)

theorem mem_of_afterSpaced? {marks s rest : Text} (last : '>' ∈ marks)
    (h : afterSpaced? marks s = some rest) : '>' ∈ s := by
  induction marks generalizing s with
  | nil => cases last
  | cons m marks ih =>
      rw [afterSpaced?, Option.bind_eq_some_iff] at h
      obtain ⟨body, found, h⟩ := h
      have suffix : s.trimStart <:+ s := List.dropWhile_suffix Text.isBlank
      refine suffix.subset ?_
      rw [Text.after?_eq_some.mp found]
      rcases List.mem_cons.mp last with rfl | later
      · exact List.mem_cons_self
      · exact List.mem_cons_of_mem _ (ih later h)

/-- Marks in front and marks that blanks may separate, of which only the last is `>`. -/
theorem delimited_spaced {first later : Text} (more : Text) (outside : '>' ∉ first)
    (ends : '>' ∈ later) (last : '>' ∉ later.dropLast) :
    Text.Delimited '>' more (· ++ more) fun s =>
      (Text.after? first s).bind (afterSpaced? later) where
  mem s rest h := by
    obtain ⟨body, found, h⟩ := Option.bind_eq_some_iff.mp h
    rw [Text.after?_eq_some.mp found]
    exact List.mem_append_right _ (mem_of_afterSpaced? ends h)
  append s inside := by
    rw [Text.after?_append_eq_map more inside outside]
    cases found : Text.after? first s with
    | none => rfl
    | some body =>
        exact afterSpaced?_append more (Text.mem_of_after? inside outside found) last

variable {s rest : Text} {events : List Event} (more : Text)

theorem readEndTag?_append (h : readEndTag? s = some (events, rest)) :
    readEndTag? (s ++ more) = some (events, rest ++ more) := by
  simp only [readEndTag?, Option.bind_eq_some_iff, Option.map_eq_some_iff, Prod.exists,
    Prod.mk.injEq] at h
  obtain ⟨body, opened, inner, tail, cut, rfl, rfl⟩ := h
  rw [readEndTag?, Text.after?_append more opened, Option.bind_some, Text.cut?_append more cut]
  rfl

theorem readInstruction?_append (h : readInstruction? s = some (events, rest)) :
    readInstruction? (s ++ more) = some (events, rest ++ more) := by
  obtain ⟨body, inner, opened, cut, rfl⟩ := readInstruction?_eq_some h
  rw [readInstruction?, Text.after?_append more opened, Option.bind_some, Text.cut?_append more cut]
  rfl

theorem readComment?_append (h : readComment? s = some (events, rest)) :
    readComment? (s ++ more) = some (events, rest ++ more) := by
  obtain ⟨body, inner, opened, closed, rfl⟩ := readComment?_eq_some h
  have delimited : Text.Delimited '>' more (· ++ more) afterCommentEnd? :=
    delimited_spaced more (by decide) List.mem_cons_self List.not_mem_nil
  rw [readComment?, Text.after?_append more opened, Option.bind_some,
    Text.search_append delimited closed]
  rfl

theorem delimited_afterSectionEnd? {name marks : Text} (h : sectionEnd? name = some marks) :
    Text.Delimited '>' more (· ++ more) (afterSectionEnd? marks) := by
  rw [sectionEnd?] at h
  split at h
  · cases h
    exact delimited_spaced more (by decide) (by decide) (by decide)
  · split at h
    · cases h
      exact delimited_spaced more (by decide) (by decide) (by decide)
    · cases h

theorem readSection_append {opening opening' body : Text}
    (h : readSection opening body = .ok (some (events, rest))) :
    readSection opening' (body ++ more) = .ok (some (events, rest ++ more)) := by
  unfold readSection at h
  split at h
  · cases h
  · next c s =>
      simp only at h
      split at h
      · cases h
      · next letter =>
          split at h
          · cases h
          · next filled =>
              have blanks : (Text.run Text.isBlank (Text.run isSectionName s).2).2 ≠ [] := by
                simpa using filled
              have name : (Text.run isSectionName s).2 ≠ [] := by
                intro empty
                rw [empty] at blanks
                exact blanks rfl
              split at h
              · cases h
              · next marks known =>
                  simp only [Except.ok.injEq, Option.map_eq_some_iff, Prod.exists,
                    Prod.mk.injEq] at h
                  obtain ⟨inner, tail, closed, rfl, rfl⟩ := h
                  have closed' := Text.search_append (delimited_afterSectionEnd? more known) closed
                  rw [List.cons_append] at closed' ⊢
                  simp only [readSection, Text.run_append more name, Text.run_append more blanks,
                    if_neg letter, known, closed']
                  simp [blanks]

/-- **A section without a known name stays one.** -/
theorem readSection_append_error {opening body : Text} {e : Malformed}
    (h : readSection opening body = .error e) (opening' : Text) :
    ∃ e', readSection opening' (body ++ more) = .error e' := by
  unfold readSection at h
  split at h
  · cases h
  · next c s =>
      simp only at h
      rw [List.cons_append]
      split at h
      · next letter => exact ⟨_, by rw [readSection, if_pos letter]⟩
      · next letter =>
          split at h
          · cases h
          · next filled =>
              have blanks : (Text.run Text.isBlank (Text.run isSectionName s).2).2 ≠ [] := by
                simpa using filled
              have name : (Text.run isSectionName s).2 ≠ [] := by
                intro empty
                rw [empty] at blanks
                exact blanks rfl
              split at h
              · next unknown =>
                  refine ⟨.unknownSection (c :: (Text.run isSectionName s).1 ++
                    (Text.run Text.isBlank (Text.run isSectionName s).2).1), ?_⟩
                  simp only [readSection, Text.run_append more name, Text.run_append more blanks,
                    if_neg letter, unknown]
                  simp [blanks]
              · cases h

/-- A document type is told from a comment before the first `>`. -/
theorem afterDoctype?_append {body : Text} (inside : '>' ∈ body) :
    afterDoctype? (body ++ more) = (afterDoctype? body).map (· ++ more) := by
  by_cases long : 7 ≤ body.length
  · have taken : (body ++ more).take 7 = body.take 7 := List.take_append_of_le_length long
    have dropped : (body ++ more).drop 7 = body.drop 7 ++ more :=
      List.drop_append_of_le_length long
    rw [afterDoctype?, afterDoctype?, taken, dropped]
    split <;> rfl
  · have whole : body.take 7 = body := List.take_of_length_le (by omega)
    -- a shorter body has its `>` among the first seven characters
    have taken : '>' ∈ (body ++ more).take 7 := by
      rw [List.take_append, whole]
      exact List.mem_append_left _ inside
    have other {t : Text} (h : '>' ∈ t) :
        t.map Char.toLower ≠ ['d', 'o', 'c', 't', 'y', 'p', 'e'] := by
      intro same
      have lower : '>' ∈ t.map Char.toLower := List.mem_map.mpr ⟨'>', h, by decide⟩
      rw [same] at lower
      revert lower
      decide
    rw [afterDoctype?, afterDoctype?, if_neg (other taken), if_neg (other (whole.symm ▸ inside))]
    rfl

theorem afterDoctype?_eq_some {behind : Text} (h : afterDoctype? s = some behind) :
    7 ≤ s.length ∧ behind = s.drop 7 := by
  rw [afterDoctype?] at h
  split at h
  · next same =>
      cases h
      have length := congrArg List.length same
      simp only [List.length_map, List.length_take, List.length_cons, List.length_nil] at length
      exact ⟨by omega, rfl⟩
  · cases h

/-- The reading of a declaration that is no marked section. -/
theorem readDeclaration_plain {body : Text} (plain : ∀ t, body ≠ '[' :: t) :
    readDeclaration ('<' :: '!' :: body) =
      match afterDoctype? body with
      | some behind =>
        .ok ((Text.cut? ['>'] behind).map fun (inner, rest) =>
          ([.mark (declarationToken (['<', '!'] ++ body.take 7 ++ inner ++ ['>']))], rest))
      | none =>
        .ok ((Text.cut? ['>'] body).map fun (inner, rest) =>
          ([.mark (commentToken inner)], rest)) := by
  unfold readDeclaration
  split
  · next same =>
      cases same
      exact absurd rfl (plain _)
  · next body' _ same =>
      cases same
      rfl
  · next other =>
      exact absurd rfl (other body)

theorem readDeclaration_append (h : readDeclaration s = .ok (some (events, rest))) :
    readDeclaration (s ++ more) = .ok (some (events, rest ++ more)) := by
  unfold readDeclaration at h
  split at h
  · next body => exact readSection_append more h
  · next body plain =>
      have longer (inside : '>' ∈ body) : ∀ t, body ++ more ≠ '[' :: t := by
        intro t same
        cases body with
        | nil => cases inside
        | cons c body =>
            cases same
            exact plain body rfl
      split at h
      · next behind doctype =>
          simp only [Except.ok.injEq, Option.map_eq_some_iff, Prod.exists, Prod.mk.injEq] at h
          obtain ⟨inner, tail, cut, rfl, rfl⟩ := h
          obtain ⟨long, rfl⟩ := afterDoctype?_eq_some doctype
          have inside : '>' ∈ body := List.mem_of_mem_drop (Text.mem_of_cut? cut)
          have step := readDeclaration_plain (longer inside)
          rw [afterDoctype?_append more inside, doctype] at step
          simp only [Option.map_some, Text.cut?_append more cut] at step
          rw [List.take_append_of_le_length long] at step
          exact step
      · next doctype =>
          simp only [Except.ok.injEq, Option.map_eq_some_iff, Prod.exists, Prod.mk.injEq] at h
          obtain ⟨inner, tail, cut, rfl, rfl⟩ := h
          have inside := Text.mem_of_cut? cut
          have step := readDeclaration_plain (longer inside)
          rw [afterDoctype?_append more inside, doctype] at step
          simp only [Option.map_none, Text.cut?_append more cut] at step
          exact step
  · cases h

/-! ## Moves -/

theorem moveFound_append {found found' : Option (List Event × Text)} {raw : Option RawElement}
    {s' : Text} (h : moveFound false s found = .advance events rest raw)
    (longer : ∀ rest, found = some (events, rest) → found' = some (events, rest ++ more)) :
    moveFound false s' found' = .advance events (rest ++ more) raw := by
  cases found with
  | none => cases h
  | some read =>
      cases h
      rw [longer _ rfl]
      rfl

theorem startsWith_append {mark : Text} (h : Text.startsWith s mark = true) :
    Text.startsWith (s ++ more) mark = true := by
  obtain ⟨rest, found⟩ := Option.isSome_iff_exists.mp h
  rw [Text.startsWith, Text.after?_append more found]
  rfl

theorem startsWith_cons_eq_false {c : Char} (h : c ≠ '!') :
    Text.startsWith (c :: s) ['!', '-', '-'] = false := by
  rw [Text.startsWith, Text.after?, if_neg (Ne.symm h)]
  rfl

/-- A declaration that is no comment is none in a longer text, for only the text before its end
could become the start of a comment. -/
theorem startsWith_append_of_readDeclaration
    (h : readDeclaration ('<' :: '!' :: s) = .ok (some (events, rest)))
    (plain : Text.startsWith ('!' :: s) ['!', '-', '-'] = false) :
    Text.startsWith ('!' :: (s ++ more)) ['!', '-', '-'] = false := by
  -- the two characters behind the `!` decide; where only one stands it is no hyphen
  match s with
  | [] => cases h
  | [d] =>
      by_cases hyphen : d = '-'
      · subst hyphen
        cases h
      · simp [Text.startsWith, Text.after?, Ne.symm hyphen]
  | d :: e :: t =>
      rw [← plain]
      by_cases first : '-' = d
      · subst first
        by_cases second : '-' = e
        · subst second
          rfl
        · simp [Text.startsWith, Text.after?, second]
      · simp [Text.startsWith, Text.after?, first]

/-- **A move over an end tag, a comment, an instruction or a declaration** is not changed by more
text. -/
theorem moveMarkup_append {c : Char} {raw : Option RawElement} (name : Text.isLetter c = false)
    (h : moveMarkup false (c :: s) = .ok (.advance events rest raw)) :
    moveMarkup false (c :: (s ++ more)) = .ok (.advance events (rest ++ more) raw) := by
  simp only [moveMarkup, name, Bool.false_eq_true, if_false] at h ⊢
  by_cases slash : c = '/'
  · subst slash
    simp only [beq_self_eq_true, if_true, Except.ok.injEq] at h ⊢
    exact moveFound_append more h fun rest found => readEndTag?_append more found
  · rw [if_neg (by simpa using slash)] at h ⊢
    by_cases mark : c = '!'
    · subst mark
      cases comment : Text.startsWith ('!' :: s) ['!', '-', '-'] with
      | true =>
          have longer := startsWith_append more comment
          rw [List.cons_append] at longer
          rw [comment, if_pos rfl] at h
          rw [longer, if_pos rfl]
          simp only [Except.ok.injEq] at h ⊢
          exact moveFound_append more h fun rest found => readComment?_append more found
      | false =>
          rw [comment] at h
          simp only [Bool.false_eq_true, if_false] at h
          cases read : readDeclaration ('<' :: '!' :: s) with
          | error e =>
              rw [read] at h
              cases h
          | ok found =>
              rw [read] at h
              cases found with
              | none => cases h
              | some found =>
                  cases h
                  have longer := readDeclaration_append more read
                  simp only [List.cons_append] at longer
                  rw [startsWith_append_of_readDeclaration more read comment, longer]
                  rfl
    · rw [startsWith_cons_eq_false mark] at h ⊢
      simp only [Bool.false_eq_true, if_false] at h ⊢
      by_cases question : c = '?'
      · subst question
        simp only [beq_self_eq_true, if_true, Except.ok.injEq] at h ⊢
        exact moveFound_append more h fun rest found => readInstruction?_append more found
      · rw [if_neg (by simpa using question), if_neg (by simpa using mark)] at h ⊢
        cases h
        rfl

/-- What stops the reader outside tags is the name of a marked section. -/
theorem exists_section_of_moveMarkup {c : Char} {e : Malformed} (name : Text.isLetter c = false)
    (h : moveMarkup false (c :: s) = .error e) :
    ∃ opening body, c = '!' ∧ s = '[' :: body ∧ readSection opening body = .error e := by
  simp only [moveMarkup, name, Bool.false_eq_true, if_false] at h
  split at h
  · cases h
  · split at h
    · cases h
    · split at h
      · cases h
      · split at h
        · next mark =>
            have same : c = '!' := by simpa using mark
            subst same
            cases read : readDeclaration ('<' :: '!' :: s) with
            | ok found =>
                rw [read] at h
                cases h
            | error e' =>
                rw [read] at h
                cases h
                unfold readDeclaration at read
                split at read
                · next same =>
                    cases same
                    exact ⟨_, _, rfl, rfl, read⟩
                · split at read <;> cases read
                · cases read
        · cases h

/-- **A move that stops outside tags** stops with more text as well. -/
theorem moveMarkup_append_error {c : Char} {e : Malformed} (name : Text.isLetter c = false)
    (h : moveMarkup false (c :: s) = .error e) :
    ∃ e', moveMarkup false (c :: (s ++ more)) = .error e' := by
  obtain ⟨opening, body, rfl, rfl, stopped⟩ := exists_section_of_moveMarkup name h
  obtain ⟨e', longer⟩ := readSection_append_error more stopped
    (('<' :: '!' :: '[' :: (body ++ more)).take shownLength)
  refine ⟨e', ?_⟩
  rw [List.cons_append]
  simp only [moveMarkup, name, Text.startsWith, Text.after?, readDeclaration, longer]
  rfl

/-! ## Raw text -/

namespace RawElement

theorem folds_name (element : RawElement) : ∀ letter ∈ element.name, folds letter '>' = false := by
  cases element <;> simp [name, folds]

theorem isSome_afterFolded?_append {letters : Text} (inside : '>' ∈ s)
    (distinct : ∀ letter ∈ letters, folds letter '>' = false) :
    (afterFolded? letters (s ++ more)).isSome = (afterFolded? letters s).isSome := by
  induction letters generalizing s with
  | nil => rfl
  | cons letter letters ih =>
      cases s with
      | nil => cases inside
      | cons c s =>
          rw [List.forall_mem_cons] at distinct
          rw [List.cons_append, afterFolded?, afterFolded?]
          split
          · next folded =>
              refine ih ((List.mem_cons.mp inside).resolve_left ?_) distinct.2
              rintro rfl
              rw [distinct.1] at folded
              cases folded
          · rfl

theorem delimited_endAt? (element : RawElement) :
    Text.Delimited '>' more (fun read => (read.1, read.2 ++ more)) element.endAt? where
  mem s read h := by
    obtain ⟨inner, rest⟩ := read
    obtain ⟨rfl, -⟩ := endAt?_eq_some h
    simp
  append s inside := by
    have outside : '>' ∉ ['<', '/'] := by decide
    rw [endAt?, endAt?, Text.after?_append_eq_map more inside outside]
    cases opened : Text.after? ['<', '/'] s with
    | none => rfl
    | some body =>
        have inside := Text.mem_of_after? inside outside opened
        obtain ⟨inner, rest, cut⟩ := Text.exists_cut? inside
        have trimmed := mem_trimStart inside
        simp only [Option.map_some, Option.bind_some]
        rw [Text.trimStart_append more (List.ne_nil_of_mem trimmed),
          isSome_afterFolded?_append more trimmed element.folds_name, cut,
          Text.cut?_append more cut]
        split
        · simp only [Option.filter_some]
          split <;> rfl
        · rfl

end RawElement

/-- **A move inside a raw element** is not changed by more text. -/
theorem moveRaw_append {element : RawElement} {raw : Option RawElement}
    (h : moveRaw element s = .advance events rest raw) :
    moveRaw element (s ++ more) = .advance events (rest ++ more) raw := by
  unfold moveRaw at h
  split at h
  · cases h
  · next before inner tail found =>
      simp only [moveRaw, Text.search_append (RawElement.delimited_endAt? more element) found]
      cases named : closingName? inner with
      | some name =>
          rw [named] at h
          cases h
          rfl
      | none =>
          rw [named] at h
          cases h
          rfl

/-! ## References -/

theorem dropSemicolon_append (filled : s ≠ []) :
    dropSemicolon (s ++ more) = dropSemicolon s ++ more := by
  cases s with
  | nil => exact absurd rfl filled
  | cons c s =>
      by_cases semicolon : c = ';'
      · subst semicolon
        rfl
      · simp [dropSemicolon, semicolon]

/-- The class of the first character decides whether a run is empty. -/
theorem run_cons_fst_eq_nil {p : Char → Bool} {c : Char} {t : Text} :
    (Text.run p (c :: t)).1 = [] ↔ p c = false := by
  cases taken : p c <;> simp [Text.run, taken]

theorem readNumber?_append {number : Text} (filled : rest ≠ [])
    (h : readNumber? s = some (number, rest)) :
    readNumber? (s ++ more) = some (number, rest ++ more) := by
  simp only [readNumber?] at h
  split at h
  · next digits =>
      have same : Text.run Text.isDigit s = (number, rest) := Option.some.inj h
      have longer := Text.run_append (p := Text.isDigit) (s := s) more (by rw [same]; exact filled)
      rw [same] at digits longer
      simp only [readNumber?, longer, if_pos digits]
  · next digits =>
      split at h
      · cases h
      · next x t =>
          split at h
          · next hex =>
              cases h
              have none : (Text.run Text.isDigit (x :: (t ++ more))).1 = [] := by
                rw [run_cons_fst_eq_nil]
                exact run_cons_fst_eq_nil.mp (by simpa using digits)
              rw [List.cons_append]
              simp only [readNumber?, none, Text.run_append more filled]
              simp only [List.isEmpty_nil, Bool.not_true, Bool.false_eq_true, if_false]
              rw [if_pos hex]
          · cases h

theorem readCharacterReference?_append {number : Text}
    (h : readCharacterReference? s = some (number, rest)) :
    readCharacterReference? (s ++ more) = some (number, rest ++ more) := by
  unfold readCharacterReference? at h
  split at h
  · next number' c tail read =>
      split at h
      · cases h
      · next plain =>
          cases h
          have longer := readNumber?_append more (List.cons_ne_nil c tail) read
          rw [List.cons_append] at longer
          simp only [readCharacterReference?, longer, if_neg plain]
          rw [← List.cons_append, dropSemicolon_append more (List.cons_ne_nil c tail)]
  · cases h

theorem readNumber?_append_eq_none (semicolon : ';' ∈ s) (h : readNumber? s = none) :
    readNumber? (s ++ more) = none := by
  cases s with
  | nil => cases semicolon
  | cons x t =>
      simp only [readNumber?] at h
      split at h
      · cases h
      · next digits =>
          have none : (Text.run Text.isDigit (x :: (t ++ more))).1 = [] := by
            rw [run_cons_fst_eq_nil]
            exact run_cons_fst_eq_nil.mp (by simpa using digits)
          split at h
          · cases h
          · next hex =>
              have unread : ¬ ((x == 'x' || x == 'X') &&
                  !(Text.run Text.isHexDigit (t ++ more)).1.isEmpty) = true := by
                cases t with
                | nil =>
                    rw [List.mem_singleton] at semicolon
                    subst semicolon
                    simp
                | cons c t =>
                    simp only [Bool.and_eq_true, Bool.not_eq_true', List.isEmpty_eq_false_iff,
                      ne_eq, List.cons_append, run_cons_fst_eq_nil] at hex ⊢
                    exact hex
              rw [List.cons_append]
              simp only [readNumber?, none, List.isEmpty_nil, Bool.not_true, Bool.false_eq_true,
                if_false]
              rw [if_neg unread]

theorem not_mem_of_readNumber? {number : Text} (h : readNumber? s = some (number, rest)) :
    ';' ∉ number := by
  have outside {p : Char → Bool} (other : p ';' = false) (t : Text) : ';' ∉ (Text.run p t).1 := by
    intro inside
    have taken := List.mem_takeWhile_imp inside
    rw [other] at taken
    cases taken
  simp only [readNumber?] at h
  split at h
  · have same : Text.run Text.isDigit s = (number, rest) := Option.some.inj h
    have digits := outside (p := Text.isDigit) (by decide) s
    rw [same] at digits
    exact digits
  · next digits =>
      split at h
      · cases h
      · next x t =>
          split at h
          · next hex =>
              cases h
              intro inside
              rcases List.mem_cons.mp inside with rfl | inside
              · simp at hex
              · exact outside (p := Text.isHexDigit) (by decide) t inside
          · cases h

/-- A number that runs to the end of a text leaves no room for a semicolon. -/
theorem ne_nil_of_readNumber? {number : Text} (semicolon : ';' ∈ s)
    (h : readNumber? s = some (number, rest)) : rest ≠ [] := by
  rintro rfl
  have written := readNumber?_written h
  rw [List.append_nil] at written
  exact not_mem_of_readNumber? h (written ▸ semicolon)

/-- **A stray `&#` stays stray.** -/
theorem readCharacterReference?_append_eq_none (semicolon : ';' ∈ s)
    (h : readCharacterReference? s = none) : readCharacterReference? (s ++ more) = none := by
  unfold readCharacterReference? at h
  cases read : readNumber? s with
  | none =>
      rw [readCharacterReference?, readNumber?_append_eq_none more semicolon read]
  | some found =>
      obtain ⟨number, rest⟩ := found
      have filled := ne_nil_of_readNumber? semicolon read
      cases rest with
      | nil => exact absurd rfl filled
      | cons c rest =>
          rw [read] at h
          simp only at h
          split at h
          · next hex =>
              have longer := readNumber?_append more filled read
              rw [List.cons_append] at longer
              simp only [readCharacterReference?, longer, if_pos hex]
          · cases h

end Markup

end PageAssembly
