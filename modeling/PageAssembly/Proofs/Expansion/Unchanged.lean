import PageAssembly.Proofs.Expansion.Memo

/-!
# Fragments that stay as they are

What a component expands to depends on the fragments that it reaches, and on nothing else of the
tree.

## Main definitions

* `Expansion.ReadsAlike` — the fragments of some names are read alike in two trees

## Main statements

* `Expansion.ReadsAlike.yields` — a component yields the same markup in both trees
* `Expansion.ReadsAlike.gives_document` — a document is expanded to the same text

### Why derivations are carried over

The budgets of two trees differ with their sizes, so the recursion on one tree does not run in step
with the recursion on the other one.  A derivation has no budget: it is carried over fragment by
fragment, and gives an outcome on the other tree.
-/

namespace PageAssembly.Expansion

/-- **The fragments of the names are read alike in both trees**, and refer to no other names. -/
structure ReadsAlike (names : Set Text) (directory : Path) (t t' : FileTree) : Prop where
  /-- Nobody can tell the trees apart by these fragments. -/
  read : ∀ name ∈ names, t'.read (Fragment.path directory name) =
    t.read (Fragment.path directory name)
  /-- Following references leads to no other fragment. -/
  closed : ∀ a ∈ names, ∀ b, Refers t directory a b → b ∈ names

namespace ReadsAlike

variable {names : Set Text} {directory : Path} {t t' : FileTree} {name markup : Text}

/-- **A component yields the same markup in both trees.** -/
theorem yields (alike : ReadsAlike names directory t t') (inside : name ∈ names)
    (yields : Yields t directory name markup) : Yields t' directory name markup := by
  induction yields with
  | missing unread system => exact .missing ((alike.read _ inside).trans unread) system
  | fragment value read sound nested ih =>
      refine .fragment value ((alike.read _ inside).trans read) sound fun n hn => ih n hn ?_
      exact alike.closed _ inside n (refers_of_reference read hn)

/-- A component that has an outcome in the one tree has it in the other one. -/
theorem outcome (alike : ReadsAlike names directory t t') (inside : name ∈ names)
    (h : outcome t directory name = .ok markup) : outcome t' directory name = .ok markup :=
  (alike.yields inside (yields_of_outcomeWithin h)).outcomeWithin_eq (.start t' directory name)
    (by simp [budget])

/-- **A document is expanded to the same text in both trees** when all names on it are read
alike. -/
theorem gives_document (alike : ReadsAlike names directory t t') {source text expanded : Text}
    (inside : ∀ line ∈ Text.splitLines text, ∀ name ∈ Reference.names line, name ∈ names)
    (h : ((document t directory source text).run.run {}).1 = .ok expanded) :
    Gives t' directory (document t' directory source text) (.ok expanded) := by
  obtain ⟨_, run, -⟩ := Expansion.gives_document source text {} (sound_empty t directory)
  rw [run] at h
  obtain ⟨value, outcomes, rfl⟩ := exists_filled_of_assemble h
  have same : assemble (Expansion.outcome t' directory) (piecesOf (Text.splitLines text)) =
      .ok ((piecesOf (Text.splitLines text)).flatMap (filled value)) := by
    refine assemble_eq_ok fun name hname => alike.outcome ?_ (outcomes name hname)
    obtain ⟨line, hline, taken⟩ := List.mem_flatMap.mp hname
    exact inside line hline name
      (Reference.mem_names_of_mem_taken (Reference.mem_taken.mpr taken))
  exact same ▸ Expansion.gives_document source text

end ReadsAlike

end PageAssembly.Expansion
