import PageAssembly.Proofs.Expansion.Memo
import PageAssembly.Proofs.Survey.Contents

/-!
# What validation spares expansion

A component directory that is found valid has no cycle of references among its components.  An
expansion over the same tree can then meet a cycle only through a name that the survey did not list.

## Main statements

* `Dependencies.refers_of_refers` — an expansion follows no reference that a survey does not have
* `Expansion.exists_unlisted_of_circular` — every cycle, and every failure by a cycle, has a name
  that no valid survey lists
-/

namespace PageAssembly

open Relation

variable {t : FileTree} {directory : Path} {d : Dependencies}

/-- **An expansion follows no reference that a survey does not have.**  The survey takes the names
of all references on a line, those that are not replaced among them. -/
theorem Dependencies.refers_of_refers
    (surveyed : ∀ entry ∈ d.entries, Surveyed t directory entry) {a b : Text}
    (listed : a ∈ d.components) (refers : Expansion.Refers t directory a b) : d.Refers a b := by
  obtain ⟨bytes, read, line, hline, taken⟩ := refers
  obtain ⟨bytes', read', -, direct⟩ := exists_direct_eq surveyed listed
  obtain rfl : bytes = bytes' := Except.ok.inj (read.symm.trans read')
  rw [Dependencies.Refers, direct, referencesOf, Text.mem_sortUnique, List.mem_flatMap]
  exact ⟨line, hline, Reference.mem_names_of_mem_taken taken⟩

namespace Expansion

/-- A cycle has a name that no valid survey lists, for all of its references would be in the map. -/
theorem IsCycle.exists_unlisted {names : List Text} (cycle : IsCycle t directory names)
    (surveyed : ∀ entry ∈ d.entries, Dependencies.Surveyed t directory entry)
    (acyclic : ∀ name ∈ d.components, ¬ TransGen d.Refers name name) :
    ∃ n ∈ names, n ∉ d.components := by
  by_contra none
  push Not at none
  obtain ⟨x, hx⟩ := List.exists_mem_of_ne_nil names cycle.ne_nil
  -- with every name listed the whole cycle lies in the map
  refine acyclic x (none x hx) (cycle.transGen_of_refers (fun a ha b refers => ?_) hx)
  exact Dependencies.refers_of_refers surveyed (none a ha) refers

/-- A component that fails by a cycle reaches one that consists of the names of the failure. -/
theorem exists_cycle_of_outcome {name : Text} {names : List Text}
    (h : outcome t directory name = .error (.circular names)) :
    ∃ cycle, IsCycle t directory cycle ∧ names = Text.sortUnique cycle := by
  have obstructs : Obstructs t directory name (.circular names) := by
    refine obstructs_of_outcomeWithin (.start t directory name) (Nat.le_refl _) (fun x hx => ?_) h
    rw [List.mem_singleton.mp hx]
  cases obstructs with
  | circular cycle reached => exact ⟨_, cycle, rfl⟩

/-- **Validation leaves no cycle to expansion but through names it did not list.**  After a valid
survey every cycle of references has a name that is not in the map; and so has every failure by a
cycle, of a component as of a document, when the expansion starts with nothing remembered. -/
theorem exists_unlisted_of_circular {notices : Notices}
    (valid : ((Dependencies.surveyValid t directory).run.run notices).1 = .ok d) :
    (∀ cycle, IsCycle t directory cycle → ∃ n ∈ cycle, n ∉ d.components) ∧
      (∀ place name notices names,
        ((component t directory place name).run.run { notices }).1 = .error (.circular names) →
          ∃ n ∈ names, n ∉ d.components) ∧
      ∀ source text notices names,
        ((document t directory source text).run.run { notices }).1 = .error (.circular names) →
          ∃ n ∈ names, n ∉ d.components := by
  obtain ⟨surveyed, acyclic⟩ := Dependencies.surveyValid_ensures notices d valid
  have ofOutcome : ∀ name names, outcome t directory name = .error (.circular names) →
      ∃ n ∈ names, n ∉ d.components := by
    intro name names h
    obtain ⟨cycle, isCycle, rfl⟩ := exists_cycle_of_outcome h
    obtain ⟨n, hn, unlisted⟩ := isCycle.exists_unlisted surveyed acyclic
    exact ⟨n, Text.mem_sortUnique.mpr hn, unlisted⟩
  refine ⟨fun cycle isCycle => isCycle.exists_unlisted surveyed acyclic, ?_, ?_⟩
  · intro place name notices names h
    obtain ⟨s', run, -⟩ := gives_component place name { notices } (sound_empty t directory)
    rw [run] at h
    exact ofOutcome name names h
  · intro source text notices names h
    obtain ⟨s', run, -⟩ := gives_document source text { notices } (sound_empty t directory)
    rw [run] at h
    obtain ⟨name, -, failed⟩ := exists_error_of_assemble h
    exact ofOutcome name names failed

/-! ### A cycle that no survey lists -/

/-- A directory `c` with one component, whose fragment leads to a file beside the directory. -/
def climbingTree : FileTree where
  entries := [([['c']], .directory),
    ([['c'], "p.html".toList], .file (Utf8.encode "<app-../x/>".toList)),
    (["x.html".toList], .file (Utf8.encode "<app-../x/>".toList))]

/-- The survey lists `p` alone and is valid; `p` leads to a cycle whose name is not in the map. -/
theorem climbingTree_unlisted : ∃ d : Dependencies, d.components = [['p']] ∧
    ((Dependencies.surveyValid climbingTree exampleDirectory).run.run #[]).1 = .ok d ∧
      ((component climbingTree exampleDirectory {} ['p']).run.run {}).1 =
        .error (.circular ["../x".toList]) ∧ ∃ n ∈ ["../x".toList], n ∉ d.components := by
  have acyclic : (⟨[(['p'], ["../x".toList])]⟩ : Dependencies).cyclic = [] := by
    rw [List.eq_nil_iff_forall_not_mem]
    intro x hx
    obtain ⟨listed, around⟩ := Dependencies.mem_cyclic_iff.mp hx
    obtain ⟨y, -, refers⟩ := TransGen.tail'_iff.mp around
    have mentioned := Dependencies.mem_mentioned_of_refers refers
    rw [List.mem_singleton.mp listed] at mentioned
    exact absurd mentioned (by decide)
  have valid : ((Dependencies.surveyValid climbingTree exampleDirectory).run.run #[]).1 =
      .ok ⟨[(['p'], ["../x".toList])]⟩ :=
    Dependencies.surveyValid_of_survey (by decide +kernel) acyclic
  have fails : ((component climbingTree exampleDirectory {} ['p']).run.run {}).1 =
      .error (.circular ["../x".toList]) := by decide +kernel
  obtain ⟨-, ofComponent, -⟩ := exists_unlisted_of_circular valid
  exact ⟨_, rfl, valid, fails, ofComponent {} ['p'] #[] ["../x".toList] fails⟩

end Expansion

end PageAssembly
