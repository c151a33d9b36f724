import PageAssembly.Proofs.Text.Leftmost
import PageAssembly.Reference
import PageAssembly.Text.Lines

/-!
# Texts divided at references

Which references of a text are taken, said without the search that takes them: line by line, each
name of the line in turn takes the leftmost place of its tag behind the tag taken last.

## Main definitions

* `Reference.Division` — a text with some of its references marked
* `Reference.Takes` — the division of what is left of a line by the names still to be taken
* `Reference.Divides` — the division of a text, line by line

## Main statements

* `Reference.exists_divides`, `Reference.DividesFrom.unique` — every text has one division
* `Reference.DividesFrom.written` — the division spells the text
-/

namespace PageAssembly.Reference

/-! ## Divisions -/

/-- **A text with some of its references marked.** -/
inductive Division where
  /-- Text in which no reference is marked. -/
  | text (t : Text)
  /-- The text before the first marked reference, the number of its line, its name, and what
  follows it. -/
  | reference (before : Text) (line : Nat) (name : Text) (later : Division)
  deriving DecidableEq, Repr

namespace Division

/-- What a division spells. -/
def written : Division → Text
  | .text t => t
  | .reference before _ name later => before ++ (tag name ++ later.written)

/-- The names of the marked references. -/
def names : Division → List Text
  | .text _ => []
  | .reference _ _ name later => name :: later.names

/-- Two divisions one after the other; the text behind the last reference of the first one and the
text before the first reference of the second one run together. -/
def append : Division → Division → Division
  | .text t, .text u => .text (t ++ u)
  | .text t, .reference before line name later => .reference (t ++ before) line name later
  | .reference before line name later, E => .reference before line name (later.append E)

@[simp] theorem written_append (D E : Division) :
    (D.append E).written = D.written ++ E.written := by
  induction D with
  | text t =>
      cases E with
      | text u => rfl
      | reference before line name later => exact List.append_assoc t before _
  | reference before line name later ih =>
      rw [append, written, written, ih, List.append_assoc, List.append_assoc]

end Division

/-! ## Lines -/

/-- **The names take references of what is left of a line**, one after the other: a name takes the
leftmost place of its tag, and the names behind it look behind that; a name whose tag does not occur
takes nothing. -/
inductive Takes (number : Nat) : List Text → Text → Division → Prop
  /-- No name is left. -/
  | done {rest : Text} : Takes number [] rest (.text rest)
  /-- The tag does not occur. -/
  | passed {name : Text} {names : List Text} {rest : Text} {D : Division} :
      ¬ tag name <:+: rest → Takes number names rest D → Takes number (name :: names) rest D
  /-- The tag is taken at its leftmost place. -/
  | taken {name : Text} {names : List Text} {rest before after : Text} {later : Division} :
      Text.Leftmost (tag name) rest before after → Takes number names after later →
      Takes number (name :: names) rest (.reference before number name later)

namespace Takes

variable {number : Nat} {names : List Text} {rest : Text} {D E : Division}

/-- The division spells what is left of the line. -/
theorem written (takes : Takes number names rest D) : D.written = rest := by
  induction takes with
  | done => rfl
  | passed _ _ ih => exact ih
  | taken leftmost _ ih => rw [Division.written, ih, leftmost.split, List.append_assoc]

/-- **The names leave no choice.** -/
theorem unique (takes : Takes number names rest D) (takes' : Takes number names rest E) :
    D = E := by
  induction takes generalizing E with
  | done =>
      cases takes'
      rfl
  | passed absent _ ih =>
      cases takes' with
      | passed _ later => exact ih later
      | taken leftmost _ => exact absurd ⟨_, _, leftmost.split.symm⟩ absent
  | taken leftmost _ ih =>
      cases takes' with
      | passed absent _ => exact absurd ⟨_, _, leftmost.split.symm⟩ absent
      | taken leftmost' later' =>
          obtain ⟨rfl, rfl⟩ := leftmost.unique leftmost'
          rw [ih later']

end Takes

/-- Every line is divided by its names. -/
theorem exists_takes (number : Nat) (names : List Text) (rest : Text) :
    ∃ D, Takes number names rest D := by
  induction names generalizing rest with
  | nil => exact ⟨_, .done⟩
  | cons name names ih =>
      cases found : Text.cut? (tag name) rest with
      | none =>
          obtain ⟨D, later⟩ := ih rest
          exact ⟨D, .passed (Text.cut?_eq_none_iff.mp found) later⟩
      | some place =>
          obtain ⟨D, later⟩ := ih place.2
          exact ⟨_, .taken (Text.cut?_eq_some_iff.mp found) later⟩

/-! ## Texts -/

/-- **Numbered lines divided one after the other**, each by the names it refers to. -/
inductive DividesFrom : Nat → List Text → Division → Prop
  /-- No line is left. -/
  | done {number : Nat} : DividesFrom number [] (.text [])
  /-- The first line, and the lines behind it. -/
  | line {number : Nat} {line : Text} {lines : List Text} {D E : Division} :
      Takes number (names line) line D → DividesFrom (number + 1) lines E →
      DividesFrom number (line :: lines) (D.append E)

/-- **The division of a text**: that of its lines, the first one of which is number one. -/
def Divides (text : Text) (D : Division) : Prop := DividesFrom 1 (Text.splitLines text) D

namespace DividesFrom

variable {number : Nat} {lines : List Text} {D E : Division}

/-- The division spells the lines. -/
theorem written (divides : DividesFrom number lines D) : D.written = lines.flatten := by
  induction divides with
  | done => rfl
  | line takes _ ih => rw [Division.written_append, takes.written, ih, List.flatten_cons]

/-- **The lines leave no choice.** -/
theorem unique (divides : DividesFrom number lines D) (divides' : DividesFrom number lines E) :
    D = E := by
  induction divides generalizing E with
  | done =>
      cases divides'
      rfl
  | line takes _ ih =>
      cases divides' with
      | line takes' later' => rw [takes.unique takes', ih later']

end DividesFrom

/-- All lines are divided. -/
theorem exists_divides (number : Nat) (lines : List Text) : ∃ D, DividesFrom number lines D := by
  induction lines generalizing number with
  | nil => exact ⟨_, .done⟩
  | cons line lines ih =>
      obtain ⟨D, takes⟩ := exists_takes number (names line) line
      obtain ⟨E, later⟩ := ih (number + 1)
      exact ⟨_, .line takes later⟩

end PageAssembly.Reference
