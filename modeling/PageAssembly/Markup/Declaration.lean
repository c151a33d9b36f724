import PageAssembly.Markup.EndTag
import PageAssembly.Markup.Malformed

/-!
# Comments, instructions and declarations

The markup that starts with `<!` or `<?`.

## Main definitions

* `Markup.readComment?` — a comment
* `Markup.readInstruction?` — a processing instruction
* `Markup.readSection` — a marked section
* `Markup.readDeclaration` — a marked section, a document type, or a malformed comment

## Main statements

* `Markup.readSection_eq_some`, `Markup.readDeclaration_eq_some` — what has been read of a section
  and of a declaration

## Design notes

Every reader gives nothing when the text ends before the markup does.  A comment ends at two
hyphens, blanks and `>`; an instruction and a document type end at the first `>`.  A marked section
ends at `]]>` when its name is one of the standard ones and at `]>` when it is one of the
conditional ones, blanks allowed between the characters; a section with another name, or with none,
is malformed.  Anything else that starts with `<!` runs to the first `>` and is a comment.
-/

namespace PageAssembly.Markup

/-- What follows the given characters when blanks may stand between them. -/
def afterSpaced? : (marks s : Text) → Option Text
  | [], s => some s
  | m :: marks, s => (Text.after? [m] s.trimStart).bind (afterSpaced? marks)

theorem afterSpaced?_length_le {marks s rest : Text} (h : afterSpaced? marks s = some rest) :
    rest.length ≤ s.length := by
  induction marks generalizing s with
  | nil => simp only [afterSpaced?, Option.some.injEq] at h; simp [h]
  | cons m marks ih =>
    simp only [afterSpaced?, Option.bind_eq_some_iff] at h
    obtain ⟨body, hb, h⟩ := h
    have h1 := ih h
    have h2 : s.trimStart.length ≤ s.length := (List.dropWhile_suffix Text.isBlank).length_le
    rw [Text.after?_eq_some.1 hb] at h2
    simp only [List.length_append] at h2
    omega

/-- A declaration with the given spelling. -/
def declarationToken (written : Text) : Token := { kind := .declaration, text := written }

/-- What follows the end of a comment: two hyphens, blanks and `>`. -/
def afterCommentEnd? (s : Text) : Option Text :=
  (Text.after? ['-', '-'] s).bind (afterSpaced? ['>'])

/-- The event of the comment at the start of the text, and the rest. -/
def readComment? (s : Text) : Option (List Event × Text) :=
  (Text.after? ['<', '!', '-', '-'] s).bind fun body =>
    (Text.search afterCommentEnd? body).map fun (inner, rest) =>
      ([.mark (commentToken inner)], rest)

/-- The event of the processing instruction at the start of the text, and the rest. -/
def readInstruction? (s : Text) : Option (List Event × Text) :=
  (Text.after? ['<', '?'] s).bind fun body =>
    (Text.cut? ['>'] body).map fun (inner, rest) =>
      ([.mark (declarationToken (['<', '?'] ++ inner ++ ['>']))], rest)

section

variable {s rest : Text} {events : List Event}

theorem readComment?_eq_some (h : readComment? s = some (events, rest)) :
    ∃ body inner, Text.after? ['<', '!', '-', '-'] s = some body ∧
      Text.search afterCommentEnd? body = some (inner, rest) ∧
      events = [.mark (commentToken inner)] := by
  simp only [readComment?, Option.bind_eq_some_iff, Option.map_eq_some_iff, Prod.exists,
    Prod.mk.injEq] at h
  obtain ⟨body, opened, inner, tail, closed, rfl, rfl⟩ := h
  exact ⟨body, inner, opened, closed, rfl⟩

theorem readInstruction?_eq_some (h : readInstruction? s = some (events, rest)) :
    ∃ body inner, Text.after? ['<', '?'] s = some body ∧
      Text.cut? ['>'] body = some (inner, rest) ∧
      events = [.mark (declarationToken (['<', '?'] ++ inner ++ ['>']))] := by
  simp only [readInstruction?, Option.bind_eq_some_iff, Option.map_eq_some_iff, Prod.exists,
    Prod.mk.injEq] at h
  obtain ⟨body, opened, inner, tail, cut, rfl, rfl⟩ := h
  exact ⟨body, inner, opened, cut, rfl⟩

end

/-! ## Marked sections -/

/-- The characters of a section's name behind the first one. -/
def isSectionName (c : Char) : Bool :=
  c == '-' || c == '_' || c == '.' || Text.isLetter c || Text.isDigit c

/-- The names of sections that end at `]]>`. -/
def standardSections : List Text :=
  [['t', 'e', 'm', 'p'], ['c', 'd', 'a', 't', 'a'], ['i', 'g', 'n', 'o', 'r', 'e'],
    ['i', 'n', 'c', 'l', 'u', 'd', 'e'], ['r', 'c', 'd', 'a', 't', 'a']]

/-- The names of sections that end at `]>`. -/
def conditionalSections : List Text :=
  [['i', 'f'], ['e', 'l', 's', 'e'], ['e', 'n', 'd', 'i', 'f']]

/-- The characters that end a section with the given name. -/
def sectionEnd? (name : Text) : Option Text :=
  if name.lower ∈ standardSections then some [']', ']', '>']
  else if name.lower ∈ conditionalSections then some [']', '>']
  else none

/-- What follows the given characters, which start the text, when blanks may stand between
them. -/
def afterSectionEnd? (marks s : Text) : Option Text :=
  (Text.after? (marks.take 1) s).bind (afterSpaced? (marks.drop 1))

/-- The event of the marked section at the start of the text, and the rest; `opening` is the text
shown when the section has no name. -/
def readSection (opening body : Text) : Except Malformed (Option (List Event × Text)) :=
  match body with
  | [] => .ok none
  | c :: s =>
    let name := Text.run isSectionName s
    let blanks := Text.run Text.isBlank name.2
    if !Text.isLetter c then .error (.expectedName opening)
    else if blanks.2.isEmpty then .ok none
    else
      match sectionEnd? (c :: name.1) with
      | none => .error (.unknownSection (c :: name.1 ++ blanks.1))
      | some marks =>
        .ok ((Text.search (afterSectionEnd? marks) body).map fun (inner, rest) =>
          ([.mark (declarationToken (['<', '!', '['] ++ inner ++ [']', '>']))], rest))

/-- A section that is read has a known name and an end. -/
theorem readSection_eq_some {opening body rest : Text} {events : List Event}
    (h : readSection opening body = .ok (some (events, rest))) :
    ∃ name marks inner, sectionEnd? name = some marks ∧
      Text.search (afterSectionEnd? marks) body = some (inner, rest) ∧
      events = [.mark (declarationToken (['<', '!', '['] ++ inner ++ [']', '>']))] := by
  unfold readSection at h
  split at h
  · cases h
  · simp only at h
    split at h
    · cases h
    · split at h
      · cases h
      · split at h
        · cases h
        · next marks known =>
          simp only [Except.ok.injEq, Option.map_eq_some_iff, Prod.exists, Prod.mk.injEq] at h
          obtain ⟨inner, tail, closed, rfl, rfl⟩ := h
          exact ⟨_, marks, inner, known, closed, rfl⟩

/-! ## Declarations -/

/-- The number of characters of the input that a message about a nameless section shows. -/
def shownLength : Nat := 20

/-- The text behind `doctype` in any case, at the start of the text. -/
def afterDoctype? (s : Text) : Option Text :=
  if (s.take 7).map Char.toLower = ['d', 'o', 'c', 't', 'y', 'p', 'e'] then some (s.drop 7)
  else none

/-- The event of the markup behind a `<!` at the start of the text, and the rest. -/
def readDeclaration (s : Text) : Except Malformed (Option (List Event × Text)) :=
  match s with
  | '<' :: '!' :: '[' :: body => readSection (s.take shownLength) body
  | '<' :: '!' :: body =>
    match afterDoctype? body with
    | some behind =>
      .ok ((Text.cut? ['>'] behind).map fun (inner, rest) =>
        ([.mark (declarationToken (['<', '!'] ++ body.take 7 ++ inner ++ ['>']))], rest))
    | none =>
      .ok ((Text.cut? ['>'] body).map fun (inner, rest) => ([.mark (commentToken inner)], rest))
  | _ => .ok none

/-- **What is read behind `<!`**: a marked section, a document type, or a malformed comment. -/
theorem readDeclaration_eq_some {s rest : Text} {events : List Event}
    (h : readDeclaration s = .ok (some (events, rest))) :
    (∃ opening body, s = '<' :: '!' :: '[' :: body ∧
      readSection opening body = .ok (some (events, rest))) ∨
    (∃ body behind inner, s = '<' :: '!' :: body ∧ afterDoctype? body = some behind ∧
      Text.cut? ['>'] behind = some (inner, rest) ∧
      events = [.mark (declarationToken (['<', '!'] ++ body.take 7 ++ inner ++ ['>']))]) ∨
    ∃ body inner, s = '<' :: '!' :: body ∧ Text.cut? ['>'] body = some (inner, rest) ∧
      events = [.mark (commentToken inner)] := by
  unfold readDeclaration at h
  split at h
  · exact Or.inl ⟨_, _, rfl, h⟩
  · next body _ =>
    split at h
    · next behind doctype =>
      simp only [Except.ok.injEq, Option.map_eq_some_iff, Prod.exists, Prod.mk.injEq] at h
      obtain ⟨inner, tail, cut, rfl, rfl⟩ := h
      exact Or.inr (Or.inl ⟨body, behind, inner, rfl, doctype, cut, rfl⟩)
    · simp only [Except.ok.injEq, Option.map_eq_some_iff, Prod.exists, Prod.mk.injEq] at h
      obtain ⟨inner, tail, cut, rfl, rfl⟩ := h
      exact Or.inr (Or.inr ⟨body, inner, rfl, cut, rfl⟩)
  · cases h

end PageAssembly.Markup
