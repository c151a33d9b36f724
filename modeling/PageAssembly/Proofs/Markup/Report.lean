import PageAssembly.Markup.Reader
import PageAssembly.Proofs.Markup.Construct
import PageAssembly.Proofs.Text.Leftmost

/-!
# What one move takes and reports

Every move takes the front of its text and reports text, a comment or a declaration, or a tag for
it.  What later modules say about the events of the reader goes back to this one case analysis.

## Main definitions

* `Move.events`, `Move.rest` — what a move reports, and what it leaves
* `Markup.endTagStart?` — where a move tries to read an end tag
* `Markup.Report` — what can be reported for a piece of the source

## Main statements

* `Markup.move_report` — what a move reports is a report for the front of the text that it takes
* `Markup.move_rest_suffix` — every move leaves a suffix of its text

### Which tags end what is taken

A tag is always the last thing that a move reports, and it is the end of what the move takes.  Text
stands in front of it in a raw element only.
-/

namespace PageAssembly.Markup

/-- The events of a move. -/
def Move.events : Move → List Event
  | .advance events _ _ => events
  | .halt events _ => events

/-- The text that a move leaves. -/
def Move.rest : Move → Text
  | .advance _ rest _ => rest
  | .halt _ rest => rest

/-- **Where a move tries to read an end tag**, if it does: at the start of its text, and inside a
raw element where the element may end. -/
def endTagStart? (raw : Option RawElement) (s : Text) : Option Nat :=
  match raw with
  | none => if Text.startsWith s ['<', '/'] then some 0 else none
  | some element => (Text.search element.endAt? s).map fun found => found.1.length

/-- **What can be reported for a piece of the source**, which is the front of the text `s`. -/
inductive Report (raw : Option RawElement) (s : Text) : Text → List Event → Prop
  /-- Text, in any number of pieces, none of which is empty. -/
  | text {source : Text} {pieces : List Text} :
    [] ∉ pieces → Report raw s source (pieces.map .text)
  /-- A comment or a declaration. -/
  | construct (c : Construct) : c.WellFormed → Report raw s c.written [.mark c.token]
  /-- A start tag, as it is written. -/
  | startTag {token : Token} {inner : Text} :
    token.kind = .startTag ∨ token.kind = .selfClosing → token.text = '<' :: inner →
      Report raw s token.text [.mark token]
  /-- An end tag, as it is written up to the first `>`, and the text in front of it. -/
  | endTag {before inner name : Text} {pieces : List Text} :
    endTagStart? raw s = some before.length → '>' ∉ inner → [] ∉ pieces →
      Report raw s (before ++ ('<' :: '/' :: inner ++ ['>']))
        (pieces.map .text ++ [.mark (endTagToken ('<' :: '/' :: inner ++ ['>']) name)])

/-- The events are a report for the front of the text, behind which the rest stands. -/
def Reported (raw : Option RawElement) (s rest : Text) (events : List Event) : Prop :=
  ∃ source, s = source ++ rest ∧ Report raw s source events

section Reported

variable {raw : Option RawElement} {s rest : Text} {events : List Event} {m : Move}

theorem suffix_of_append {front : Text} (h : s = front ++ rest) : rest <:+ s := ⟨front, h.symm⟩

theorem reported_nil (left : rest <:+ s) : Reported raw s rest [] := by
  obtain ⟨source, split⟩ := left
  exact ⟨source, split.symm, @Report.text raw s source [] List.not_mem_nil⟩

theorem reported_text {piece : Text} (left : rest <:+ s) (filled : piece ≠ []) :
    Reported raw s rest [.text piece] := by
  obtain ⟨source, split⟩ := left
  have pieces : [] ∉ [piece] := fun member => filled (List.mem_singleton.mp member).symm
  exact ⟨source, split.symm, @Report.text raw s source [piece] pieces⟩

theorem reported_construct (c : Construct) (formed : c.WellFormed) (split : s = c.written ++ rest) :
    Reported raw s rest [.mark c.token] := ⟨c.written, split, .construct c formed⟩

/-! ## Markup -/

/-- What is passed over before a character, blanks apart, is blank. -/
theorem exists_of_afterSpaced? {c : Char} {marks : Text}
    (h : afterSpaced? (c :: marks) s = some rest) :
    ∃ gap behind, gap.isAllBlank = true ∧ s = gap ++ c :: behind ∧
      afterSpaced? marks behind = some rest := by
  rw [afterSpaced?, Option.bind_eq_some_iff] at h
  obtain ⟨behind, found, h⟩ := h
  refine ⟨s.takeWhile Text.isBlank, behind, List.all_takeWhile, ?_, h⟩
  rw [← List.singleton_append, ← Text.after?_eq_some.mp found]
  exact List.takeWhile_append_dropWhile.symm

theorem readComment?_report (h : readComment? s = some (events, rest)) :
    Reported raw s rest events := by
  obtain ⟨body, inner, opened, closed, rfl⟩ := readComment?_eq_some h
  obtain ⟨found, split, ends⟩ := Text.search_eq_some closed
  rw [afterCommentEnd?, Option.bind_eq_some_iff] at ends
  obtain ⟨behind, marks, ends⟩ := ends
  obtain ⟨gap, last, blank, spaced, ended⟩ := exists_of_afterSpaced? ends
  cases ended
  refine reported_construct (.comment inner gap) blank ?_
  rw [Text.after?_eq_some.mp opened, split, Text.after?_eq_some.mp marks, spaced]
  simp [Construct.written]

theorem readInstruction?_report (h : readInstruction? s = some (events, rest)) :
    Reported raw s rest events := by
  obtain ⟨body, inner, opened, cut, rfl⟩ := readInstruction?_eq_some h
  refine reported_construct (.instruction inner) (Text.notMem_of_cut? cut) ?_
  rw [Text.after?_eq_some.mp opened, Text.cut?_eq_some cut]
  simp [Construct.written]

/-- An end tag outside raw elements is a report, and so is what is taken for a comment. -/
theorem reported_endTagEvents {inner : Text} (split : s = '<' :: '/' :: inner ++ '>' :: rest)
    (first : '>' ∉ inner) : Reported none s rest (endTagEvents inner) := by
  have whole : s = ('<' :: '/' :: inner ++ ['>']) ++ rest := by simp [split]
  have start : endTagStart? none s = some 0 := by
    rw [split]
    rfl
  have tag (name : Text) :
      Reported none s rest [.mark (endTagToken ('<' :: '/' :: inner ++ ['>']) name)] :=
    ⟨_, whole, @Report.endTag none s [] inner name [] start first List.not_mem_nil⟩
  unfold endTagEvents
  cases closingName? inner with
  | some name => exact tag name
  | none =>
      cases inner with
      | nil => exact reported_nil (suffix_of_append whole)
      | cons c inner =>
          simp only
          split
          · exact tag _
          · exact reported_construct (.looseEndTag (c :: inner)) first whole

theorem readEndTag?_report (h : readEndTag? s = some (events, rest)) :
    Reported none s rest events := by
  simp only [readEndTag?, Option.bind_eq_some_iff, Option.map_eq_some_iff, Prod.exists,
    Prod.mk.injEq] at h
  obtain ⟨body, opened, inner, tail, cut, rfl, rfl⟩ := h
  refine reported_endTagEvents ?_ (Text.notMem_of_cut? cut)
  rw [Text.after?_eq_some.mp opened, Text.cut?_eq_some cut]
  simp

theorem readSection_report {opening body : Text}
    (h : readSection opening body = .ok (some (events, rest))) :
    Reported raw ('<' :: '!' :: '[' :: body) rest events := by
  obtain ⟨name, marks, inner, known, closed, rfl⟩ := readSection_eq_some h
  obtain ⟨found, split, ends⟩ := Text.search_eq_some closed
  rw [afterSectionEnd?, Option.bind_eq_some_iff] at ends
  obtain ⟨behind, first, ends⟩ := ends
  rw [sectionEnd?] at known
  split at known
  · cases known
    obtain ⟨gap, middle, blank, spaced, ends⟩ := exists_of_afterSpaced? ends
    obtain ⟨gap', last, blank', spaced', ended⟩ := exists_of_afterSpaced? ends
    cases ended
    refine reported_construct (.standard inner gap gap') ⟨blank, blank'⟩ ?_
    rw [split, Text.after?_eq_some.mp first, spaced, spaced']
    simp [Construct.written]
  · split at known
    · cases known
      obtain ⟨gap, last, blank, spaced, ended⟩ := exists_of_afterSpaced? ends
      cases ended
      refine reported_construct (.conditional inner gap) blank ?_
      rw [split, Text.after?_eq_some.mp first, spaced]
      simp [Construct.written]
    · cases known

theorem readDeclaration_report (h : readDeclaration s = .ok (some (events, rest))) :
    Reported raw s rest events := by
  rcases readDeclaration_eq_some h with ⟨opening, body, rfl, read⟩ |
    ⟨body, behind, inner, rfl, doctype, cut, rfl⟩ | ⟨body, inner, rfl, cut, rfl⟩
  · exact readSection_report read
  · rw [afterDoctype?] at doctype
    split at doctype
    · next spelled =>
        cases doctype
        refine reported_construct (.doctype (body.take 7) inner)
          ⟨spelled, Text.notMem_of_cut? cut⟩ ?_
        have split : body = body.take 7 ++ (inner ++ ['>'] ++ rest) := by
          rw [← Text.cut?_eq_some cut, List.take_append_drop]
        rw [Construct.written]
        conv => lhs; rw [split]
        simp
    · cases doctype
  · refine reported_construct (.looseDeclaration inner) (Text.notMem_of_cut? cut) ?_
    rw [Text.cut?_eq_some cut]
    simp [Construct.written]

theorem MarkupRead.report (read : MarkupRead s (some (events, rest))) :
    Reported none ('<' :: s) rest events := by
  generalize same : some (events, rest) = found at read
  cases read with
  | endTag => exact readEndTag?_report same.symm
  | comment => exact readComment?_report same.symm
  | instruction => exact readInstruction?_report same.symm
  | declaration read => exact readDeclaration_report (same ▸ read)

theorem abandon_ne_nil (s : Text) : (abandon s).1 ≠ [] := by
  unfold abandon
  split
  · exact List.cons_ne_nil _ _
  · split <;> exact List.cons_ne_nil _ _

theorem moveCutOff_report (closing : Bool) (s : Text) :
    Reported raw ('<' :: s) (moveCutOff closing s).rest (moveCutOff closing s).events := by
  rw [moveCutOff]
  split
  · exact reported_text ⟨_, abandon_written s⟩ (abandon_ne_nil s)
  · exact reported_nil List.suffix_rfl

theorem moveFound_report {closing : Bool} {found : Option (List Event × Text)}
    (h : ∀ events rest, found = some (events, rest) → Reported raw ('<' :: s) rest events) :
    Reported raw ('<' :: s) (moveFound closing s found).rest
      (moveFound closing s found).events := by
  cases found with
  | some read => exact h read.1 read.2 rfl
  | none => exact moveCutOff_report closing s

/-- A start tag that is read is a report. -/
theorem moveTag_report {tag : StartTag} {selfClosing : Bool} {tail : Text}
    (split : s = tag.written ++ ((if selfClosing then ['/', '>'] else ['>']) ++ tail))
    (h : moveTag tag selfClosing tail = .ok m) : Reported raw s m.rest m.events := by
  simp only [moveTag] at h
  split at h
  · cases h
  · cases h
    have kind : startKind tag.name.lower selfClosing = .startTag ∨
        startKind tag.name.lower selfClosing = .selfClosing := by
      unfold startKind
      split
      · exact Or.inr rfl
      · exact Or.inl rfl
    exact ⟨_, by rw [split, ← List.append_assoc]; rfl, .startTag kind rfl⟩

theorem moveStartTag_report {closing : Bool} (h : moveStartTag closing s = .ok m) :
    Reported raw ('<' :: s) m.rest m.events := by
  have read := (StartTag.read_written s).symm
  simp only [moveStartTag] at h
  split at h
  · next tail ending =>
      rw [StartTag.ending_plain ending] at read
      exact moveTag_report read h
  · next tail ending =>
      rw [StartTag.ending_selfClosing ending] at read
      exact moveTag_report read h
  · cases h
    exact reported_text (suffix_of_append read) (List.cons_ne_nil _ _)
  · cases h
    exact moveCutOff_report closing s

theorem moveMarkup_report {closing : Bool} (h : moveMarkup closing s = .ok m) :
    Reported none ('<' :: s) m.rest m.events := by
  rcases moveMarkup_cases s with rfl | tag | ⟨found, read, moved⟩ | ⟨e, failed⟩ | text
  · cases h
    exact reported_nil List.suffix_rfl
  · rw [tag] at h
    exact moveStartTag_report h
  · rw [moved] at h
    cases h
    exact moveFound_report fun events rest same => (same ▸ read).report
  · rw [failed] at h
    cases h
  · rw [text] at h
    cases h
    exact reported_text (List.suffix_cons _ _) (List.cons_ne_nil _ _)

/-! ## References and raw text -/

theorem dropSemicolon_suffix (s : Text) : dropSemicolon s <:+ s := by
  unfold dropSemicolon
  split
  · exact List.suffix_cons _ _
  · exact List.suffix_rfl

theorem readCharacterReference?_suffix {number : Text}
    (h : readCharacterReference? s = some (number, rest)) : rest <:+ s := by
  unfold readCharacterReference? at h
  split at h
  · next digits c tail read =>
      split at h
      · cases h
      · cases h
        have left := suffix_of_append (readNumber?_written read).symm
        exact (dropSemicolon_suffix _).trans left
  · cases h

theorem readEntity?_suffix {name : Text} (h : readEntity? s = some (name, rest)) : rest <:+ s := by
  have left := suffix_of_append (Text.run_written isEntityName s).symm
  simp only [readEntity?] at h
  split at h
  · cases h
    exact (dropSemicolon_suffix _).trans left
  · next toEnd =>
      split at h
      · cases h
      · next mark before split =>
          cases h
          have written := Text.run_written (fun c => !endsEntity c)
            (Text.run isEntityName s).1.reverse
          have forth := congrArg List.reverse written
          rw [split, List.reverse_append, List.reverse_cons, List.reverse_reverse,
            List.append_assoc, List.singleton_append] at forth
          have whole := Text.run_written isEntityName s
          have none : (Text.run isEntityName s).2 = [] := by simpa using toEnd
          rw [none, List.append_nil] at whole
          exact suffix_of_append (whole.symm.trans forth.symm)

theorem moveReference_report (closing : Bool) (s : Text) :
    Reported raw ('&' :: s) (moveReference closing s).rest (moveReference closing s).events := by
  unfold moveReference
  split
  · exact reported_nil List.suffix_rfl
  · next body =>
      have behind : body <:+ '&' :: '#' :: body := ⟨['&', '#'], rfl⟩
      split
      · next number tail read =>
          exact reported_text ((readCharacterReference?_suffix read).trans behind)
            (List.cons_ne_nil _ _)
      · split
        · exact reported_text behind (List.cons_ne_nil _ _)
        · exact reported_nil List.suffix_rfl
  · split
    · split
      · next read =>
          exact reported_text ((readEntity?_suffix read).trans (List.suffix_cons _ _))
            (List.cons_ne_nil _ _)
      · split
        · exact reported_nil (List.suffix_cons _ _)
        · exact reported_nil List.suffix_rfl
    · exact reported_text (List.suffix_cons _ _) (List.cons_ne_nil _ _)

/-- What ends a raw element runs to the first `>`. -/
theorem notMem_of_endAt? {element : RawElement} {inner : Text}
    (h : element.endAt? s = some (inner, rest)) : '>' ∉ inner := by
  simp only [RawElement.endAt?, Option.bind_eq_some_iff] at h
  obtain ⟨body, -, h⟩ := h
  split at h
  · exact Text.notMem_of_cut? (Option.filter_eq_some_iff.mp h).1
  · cases h

theorem moveRaw_report (element : RawElement) (s : Text) :
    Reported (some element) s (moveRaw element s).rest (moveRaw element s).events := by
  unfold moveRaw
  split
  · exact reported_nil List.suffix_rfl
  · next before inner rest found =>
      obtain ⟨behind, split, ends⟩ := Text.search_eq_some found
      obtain ⟨rfl, -⟩ := RawElement.endAt?_eq_some ends
      have whole : s = (before ++ ('<' :: '/' :: inner ++ ['>'])) ++ rest := by simp [split]
      have start : endTagStart? (some element) s = some before.length := by
        rw [endTagStart?, found]
        rfl
      obtain ⟨pieces, filled, same⟩ : ∃ pieces : List Text, [] ∉ pieces ∧
          (if before.isEmpty then [] else [Event.text before]) = pieces.map .text := by
        split
        · exact ⟨[], List.not_mem_nil, rfl⟩
        · next filled =>
            refine ⟨[before], fun member => filled ?_, rfl⟩
            rw [← List.mem_singleton.mp member]
            rfl
      simp only [same]
      split
      · exact ⟨_, whole, .endTag start (notMem_of_endAt? ends) filled⟩
      · refine ⟨_, whole, ?_⟩
        have more : [] ∉ pieces ++ ['<' :: '/' :: inner ++ ['>']] := by
          simp [filled]
        have report := @Report.text (some element) s
          (before ++ ('<' :: '/' :: inner ++ ['>'])) _ more
        rwa [List.map_append] at report

/-! ## Moves -/

/-- **What a move reports** is a report for the front of the text that it takes. -/
theorem move_report {closing : Bool} (h : move closing raw s = .ok m) :
    Reported raw s m.rest m.events := by
  cases raw with
  | some element =>
      cases h
      exact moveRaw_report element s
  | none =>
      simp only [move] at h
      split at h
      · next plain =>
          cases h
          exact reported_text (List.dropWhile_suffix _) (by simpa using plain)
      · split at h
        · exact moveMarkup_report h
        · cases h
          exact moveReference_report closing _
        · cases h
          exact reported_nil List.suffix_rfl

/-- **Every move leaves a suffix of its text.** -/
theorem move_rest_suffix {closing : Bool} (h : move closing raw s = .ok m) : m.rest <:+ s := by
  obtain ⟨source, split, -⟩ := move_report h
  exact suffix_of_append split

end Reported

end PageAssembly.Markup
