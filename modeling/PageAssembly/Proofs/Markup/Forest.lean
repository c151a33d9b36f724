import PageAssembly.Markup.Reader
import PageAssembly.Proofs.Text.Trim

/-!
# Forests of markup

Well-formed markup is a forest of elements, of tags without content, and of texts.  A forest can be
written without a blank, or with one line for each tag and each text; both are spellings of it.

## Main definitions

* `Markup.Forest` — trees side by side
* `Forest.WellFormed` — names and texts are such that tags and texts can be told apart
* `Forest.written` — the markup of a forest, with nothing between its parts
* `Forest.laidOut` — the markup of a forest, each tag and each text on a line of its own
* `Markup.Spells` — markup of a forest with blanks anywhere between its parts

## Main statements

* `Forest.spells_written`, `Forest.spells_laidOut` — both ways to write a forest spell it

## Design notes

A forest is its first tree and the forest behind it, so that one induction goes down and along at
once.  A text never stands beside another one, for nothing would tell the two apart.
-/

namespace PageAssembly.Markup

/-- A forest of markup: a first tree and the trees behind it, or nothing. -/
inductive Forest where
  /-- No tree. -/
  | nil
  /-- A text comes first. -/
  | text (content : Text) (rest : Forest)
  /-- An element that never has content comes first. -/
  | void (name : Text) (rest : Forest)
  /-- A tag that closes itself comes first. -/
  | selfClosed (name : Text) (rest : Forest)
  /-- An element with its content comes first. -/
  | element (name : Text) (children rest : Forest)
  deriving DecidableEq, Repr

/-- A tag name in small letters. -/
def IsTagName (name : Text) : Prop := name ≠ [] ∧ ∀ c ∈ name, 'a' ≤ c ∧ c ≤ 'z'

-- The characters of the name are run through; an instance for all characters would run through
-- every character there is.
instance (name : Text) : Decidable (IsTagName name) :=
  have := List.decidableBAll (fun c => 'a' ≤ c ∧ c ≤ 'z') name
  inferInstanceAs (Decidable (name ≠ [] ∧ ∀ c ∈ name, 'a' ≤ c ∧ c ≤ 'z'))

/-- The start tag of an element. -/
def startTag (name : Text) : Text := '<' :: name ++ ['>']

/-- A tag that closes itself. -/
def selfClosedTag (name : Text) : Text := '<' :: name ++ ['/', '>']

/-- The end tag of an element. -/
def endTag (name : Text) : Text := '<' :: '/' :: name ++ ['>']

/-- What each enclosing element puts in front of a line. -/
def indentation : Text := [' ', ' ', ' ', ' ']

/-- A line with the given body inside `depth` elements. -/
def lineAt (depth : Nat) (body : Text) : Text :=
  (List.replicate depth indentation).flatten ++ body ++ ['\n']

namespace Forest

/-- Whether a text comes first. -/
def StartsWithText : Forest → Prop
  | .text _ _ => True
  | _ => False

instance : DecidablePred StartsWithText
  | .nil => isFalse id
  | .text _ _ => isTrue True.intro
  | .void _ _ => isFalse id
  | .selfClosed _ _ => isFalse id
  | .element _ _ _ => isFalse id

/-- **Well-formed markup.**  A text is not blank, starts neither markup nor a reference, and stands
beside no other text; the names are tag names, and the content of an element is neither forbidden
nor raw. -/
def WellFormed : Forest → Prop
  | .nil => True
  | .text content rest =>
    content.isAllBlank = false ∧ '<' ∉ content ∧ '&' ∉ content ∧ ¬ rest.StartsWithText ∧
      rest.WellFormed
  | .void name rest => name ∈ voidElements ∧ rest.WellFormed
  | .selfClosed name rest => IsTagName name ∧ rest.WellFormed
  | .element name children rest =>
    (IsTagName name ∧ name ∉ voidElements ∧ name ≠ RawElement.script.name ∧
      name ≠ RawElement.style.name) ∧ children.WellFormed ∧ rest.WellFormed

instance decidableWellFormed : DecidablePred WellFormed
  | .nil => isTrue True.intro
  | .text content rest =>
    have := decidableWellFormed rest
    inferInstanceAs (Decidable (content.isAllBlank = false ∧ '<' ∉ content ∧ '&' ∉ content ∧
      ¬ rest.StartsWithText ∧ rest.WellFormed))
  | .void name rest =>
    have := decidableWellFormed rest
    inferInstanceAs (Decidable (name ∈ voidElements ∧ rest.WellFormed))
  | .selfClosed name rest =>
    have := decidableWellFormed rest
    inferInstanceAs (Decidable (IsTagName name ∧ rest.WellFormed))
  | .element name children rest =>
    have := decidableWellFormed children
    have := decidableWellFormed rest
    inferInstanceAs (Decidable ((IsTagName name ∧ name ∉ voidElements ∧
      name ≠ RawElement.script.name ∧ name ≠ RawElement.style.name) ∧ children.WellFormed ∧
        rest.WellFormed))

/-- The markup of a forest, with nothing between its parts. -/
def written : Forest → Text
  | .nil => []
  | .text content rest => content ++ rest.written
  | .void name rest => startTag name ++ rest.written
  | .selfClosed name rest => selfClosedTag name ++ rest.written
  | .element name children rest =>
    startTag name ++ children.written ++ endTag name ++ rest.written

/-- **The layout of a forest** inside `depth` elements: every tag and every trimmed text once, in
the order of the document, each on a line behind one indentation for each enclosing element. -/
def laidOut (depth : Nat) : Forest → Text
  | .nil => []
  | .text content rest => lineAt depth content.trim ++ rest.laidOut depth
  | .void name rest => lineAt depth (startTag name) ++ rest.laidOut depth
  | .selfClosed name rest => lineAt depth (selfClosedTag name) ++ rest.laidOut depth
  | .element name children rest =>
    lineAt depth (startTag name) ++ children.laidOut (depth + 1) ++ lineAt depth (endTag name) ++
      rest.laidOut depth

end Forest

/-! ## Spellings -/

/-- **Markup that spells a forest**: its tags as they are written and its texts trimmed, with blanks
anywhere between them. -/
inductive Spells : Forest → Text → Prop
  /-- Blanks alone. -/
  | nil {blank : Text} : blank.isAllBlank = true → Spells .nil blank
  /-- A text behind blanks. -/
  | text {blank content s : Text} {rest : Forest} : blank.isAllBlank = true → Spells rest s →
    Spells (.text content rest) (blank ++ (content.trim ++ s))
  /-- An element without content behind blanks. -/
  | void {blank name s : Text} {rest : Forest} : blank.isAllBlank = true → Spells rest s →
    Spells (.void name rest) (blank ++ (startTag name ++ s))
  /-- A tag that closes itself behind blanks. -/
  | selfClosed {blank name s : Text} {rest : Forest} : blank.isAllBlank = true → Spells rest s →
    Spells (.selfClosed name rest) (blank ++ (selfClosedTag name ++ s))
  /-- An element with its content behind blanks. -/
  | element {blank name inner s : Text} {children rest : Forest} : blank.isAllBlank = true →
    Spells children inner → Spells rest s →
    Spells (.element name children rest)
      (blank ++ (startTag name ++ (inner ++ (endTag name ++ s))))

namespace Spells

variable {f : Forest} {s blank : Text}

/-- Blanks may be put in front. -/
theorem blank_append (h : blank.isAllBlank = true) (spells : Spells f s) :
    Spells f (blank ++ s) := by
  cases spells with
  | nil hb => exact .nil (by simp [h, hb])
  | text hb rest =>
      rw [← List.append_assoc]
      exact .text (by simp [h, hb]) rest
  | void hb rest =>
      rw [← List.append_assoc]
      exact .void (by simp [h, hb]) rest
  | selfClosed hb rest =>
      rw [← List.append_assoc]
      exact .selfClosed (by simp [h, hb]) rest
  | element hb children rest =>
      rw [← List.append_assoc]
      exact .element (by simp [h, hb]) children rest

/-- Blanks may be put behind. -/
theorem append_blank (h : blank.isAllBlank = true) (spells : Spells f s) :
    Spells f (s ++ blank) := by
  induction spells with
  | nil hb => exact .nil (by simp [h, hb])
  | text hb _ ih => simpa using Spells.text hb ih
  | void hb _ ih => simpa using Spells.void hb ih
  | selfClosed hb _ ih => simpa using Spells.selfClosed hb ih
  | element hb children _ _ ih => simpa using Spells.element hb children ih

end Spells

theorem isAllBlank_indentation (depth : Nat) :
    Text.isAllBlank (List.replicate depth indentation).flatten = true := by
  induction depth with
  | zero => rfl
  | succ depth ih =>
      rw [List.replicate_succ, List.flatten_cons, Text.isAllBlank_append, ih]
      decide

namespace Forest

/-- **The markup without blanks spells its forest**; the blanks at the ends of a text are no part of
the trimmed text. -/
theorem spells_written (f : Forest) : Spells f f.written := by
  induction f with
  | nil => exact .nil rfl
  | text content rest ih =>
      obtain ⟨lead, trail, hlead, htrail, split⟩ := Text.exists_trim content
      have spells : Spells (.text content rest) (lead ++ (content.trim ++ (trail ++ rest.written))) :=
        .text hlead (ih.blank_append htrail)
      have same : lead ++ (content.trim ++ (trail ++ rest.written)) = content ++ rest.written := by
        rw [← List.append_assoc, ← List.append_assoc, ← split]
      rw [written, ← same]
      exact spells
  | void name rest ih =>
      have spells : Spells (.void name rest) ([] ++ (startTag name ++ rest.written)) := .void rfl ih
      exact spells
  | selfClosed name rest ih =>
      have spells : Spells (.selfClosed name rest) ([] ++ (selfClosedTag name ++ rest.written)) :=
        .selfClosed rfl ih
      exact spells
  | element name children rest ihc ih =>
      have spells : Spells (.element name children rest)
          ([] ++ (startTag name ++ (children.written ++ (endTag name ++ rest.written)))) :=
        .element rfl ihc ih
      simpa [written] using spells

/-- **The layout spells its forest**; the indentations and the line ends are the blanks. -/
theorem spells_laidOut (depth : Nat) (f : Forest) : Spells f (f.laidOut depth) := by
  have newline : Text.isAllBlank ['\n'] = true := by decide
  induction f generalizing depth with
  | nil => exact .nil rfl
  | text content rest ih =>
      have behind := (ih depth).blank_append newline
      have spells : Spells (.text content rest) _ := .text (isAllBlank_indentation depth) behind
      simpa [laidOut, lineAt] using spells
  | void name rest ih =>
      have behind := (ih depth).blank_append newline
      have spells : Spells (.void name rest) _ := .void (isAllBlank_indentation depth) behind
      simpa [laidOut, lineAt] using spells
  | selfClosed name rest ih =>
      have behind := (ih depth).blank_append newline
      have spells : Spells (.selfClosed name rest) _ :=
        .selfClosed (isAllBlank_indentation depth) behind
      simpa [laidOut, lineAt] using spells
  | element name children rest ihc ih =>
      -- the indentation of the end tag stands behind the content
      have inner := ((ihc (depth + 1)).blank_append newline).append_blank
        (isAllBlank_indentation depth)
      have behind := (ih depth).blank_append newline
      have spells : Spells (.element name children rest) _ :=
        .element (isAllBlank_indentation depth) inner behind
      simpa [laidOut, lineAt] using spells

end Forest

end PageAssembly.Markup
