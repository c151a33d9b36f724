import PageAssembly.Markup.Event
import PageAssembly.Markup.StartTag
import PageAssembly.Text.Lowercase

/-!
# End tags and raw text

## Main definitions

* `Markup.readEndTag?` — the end tag at the start of a text
* `Markup.RawElement` — the elements whose content is raw text
* `RawElement.endAt?` — the end of such an element

## Design notes

An end tag runs to the first `>`.  Three spellings are told apart: blanks and an ASCII name alone;
any other name with whatever stands behind it, which is passed over; and no name at all, which
makes the tag a comment, or nothing when it is `</>`.

Inside `script` and `style` only the matching end tag counts as markup.  It is looked for without
regard to case, by a folding under which `ſ` is an `s` and `İ` and `ı` are an `i`.  A match that the
folding alone allows is not an end tag and stays text, but the text up to it is released.
-/

namespace PageAssembly.Markup

/-- The characters of an end tag's name behind the first one, where nothing follows the name. -/
def isClosingName (c : Char) : Bool :=
  c == '-' || c == '.' || c == ':' || c == '_' || Text.isLetter c || Text.isDigit c

/-- The name in an end tag that holds blanks and a name only; the text is what stands between `</`
and `>`. -/
def closingName? (inner : Text) : Option Text :=
  match Text.trimStart inner with
  | [] => none
  | c :: s =>
    let name := Text.run isClosingName s
    if Text.isLetter c && name.2.isAllBlank then some (c :: name.1) else none

/-- A comment with the given text. -/
def commentToken (inner : Text) : Token :=
  { kind := .comment, text := ['<', '!', '-', '-'] ++ inner ++ ['-', '-', '>'] }

/-- An end tag with the given spelling and name. -/
def endTagToken (written name : Text) : Token :=
  { kind := .endTag, text := written, tag := some name.lower }

/-- The event of an end tag whose text between `</` and `>` is `inner`. -/
def endTagEvents (inner : Text) : List Event :=
  let written := '<' :: '/' :: inner ++ ['>']
  match closingName? inner, inner with
  | some name, _ => [.mark (endTagToken written name)]
  | none, [] => []
  | none, c :: _ =>
    if Text.isLetter c then
      [.mark (endTagToken written (Text.run (fun c => !endsTagName c) inner).1)]
    else [.mark (commentToken inner)]

/-- The events of the end tag at the start of the text, and the rest; nothing when no `>` ends
it. -/
def readEndTag? (s : Text) : Option (List Event × Text) :=
  (Text.after? ['<', '/'] s).bind fun body =>
    (Text.cut? ['>'] body).map fun (inner, rest) => (endTagEvents inner, rest)

/-- An end tag takes up text. -/
theorem readEndTag?_eq_some {s rest : Text} {events : List Event}
    (h : readEndTag? s = some (events, rest)) :
    ∃ inner, s = '<' :: '/' :: inner ++ '>' :: rest ∧ events = endTagEvents inner := by
  simp only [readEndTag?, Option.bind_eq_some_iff, Option.map_eq_some_iff, Prod.exists,
    Prod.mk.injEq] at h
  obtain ⟨body, hb, inner, tail, hc, rfl, rfl⟩ := h
  exact ⟨inner, by rw [Text.after?_eq_some.1 hb, Text.cut?_eq_some hc]; simp, rfl⟩

/-! ## Raw text -/

/-- Elements whose content is raw text. -/
inductive RawElement where
  /-- Program text. -/
  | script
  /-- Style sheets. -/
  | style
  deriving DecidableEq, Repr

namespace RawElement

/-- The tag name. -/
def name : RawElement → Text
  | .script => ['s', 'c', 'r', 'i', 'p', 't']
  | .style => ['s', 't', 'y', 'l', 'e']

/-- The element with the given tag name. -/
def ofName? (tag : Text) : Option RawElement :=
  if tag = name .script then some .script
  else if tag = name .style then some .style
  else none

/-- Whether a character is the given small letter without regard to case. -/
def folds (letter c : Char) : Bool :=
  c.toLower == letter || (letter == 's' && c == 'ſ') || (letter == 'i' && (c == 'İ' || c == 'ı'))

/-- What follows the given small letters, without regard to case. -/
def afterFolded? : (letters s : Text) → Option Text
  | [], s => some s
  | _ :: _, [] => none
  | letter :: letters, c :: s => if folds letter c then afterFolded? letters s else none

/-- Whether the text between `</` and `>` is the element's name, without regard to case. -/
def isNamedBy (element : RawElement) (inner : Text) : Bool :=
  ((afterFolded? element.name inner.trimStart).map Text.isAllBlank).getD false

/-- The text between `</` and `>` at the start of the text and what follows, when it names the
element. -/
def endAt? (element : RawElement) (s : Text) : Option (Text × Text) :=
  (Text.after? ['<', '/'] s).bind fun body =>
    if (afterFolded? element.name body.trimStart).isSome then
      (Text.cut? ['>'] body).filter fun (inner, _) => element.isNamedBy inner
    else none

theorem endAt?_eq_some {element : RawElement} {s inner rest : Text}
    (h : element.endAt? s = some (inner, rest)) :
    s = '<' :: '/' :: inner ++ '>' :: rest ∧ element.isNamedBy inner = true := by
  simp only [endAt?, Option.bind_eq_some_iff] at h
  obtain ⟨body, hb, h⟩ := h
  split at h
  · obtain ⟨hc, hn⟩ := Option.filter_eq_some_iff.1 h
    exact ⟨by rw [Text.after?_eq_some.1 hb, Text.cut?_eq_some hc]; simp, hn⟩
  · simp at h

end RawElement

end PageAssembly.Markup
