import Mathlib
import PageAssembly.Proofs.Dependencies.Least
import PageAssembly.Proofs.Survey.Contents

/-!
# Valid maps are the ranked ones

## Main definitions

* `Dependencies.Ranks` — a rank under which components refer downwards

## Main statements

* `Dependencies.Ranks.not_transGen` — under a ranking no name reaches itself
* `Dependencies.ranks_length_closure` — without a circle the names reached are a rank
* `Dependencies.validate_iff_ranked` — validation accepts the ranked maps, and otherwise fails with
  the components on a circle

### Which rank an acyclic map has

A component reaches everything that a component it refers to reaches, and that component as well.
When no component reaches itself, the number of names reached goes down along every reference.
-/

namespace PageAssembly.Dependencies

open Relation

variable {d : Dependencies} {a b name : Text}

/-- **A rank under which components refer downwards.**  Nothing is asked of names that are no
components. -/
def Ranks {α : Type} [LT α] (d : Dependencies) (rank : Text → α) : Prop :=
  ∀ c ∈ d.components, ∀ b ∈ d.direct c, b ∈ d.components → rank b < rank c

/-- A name that reaches another one is a component. -/
theorem mem_components_of_transGen (reaches : TransGen d.Refers a b) : a ∈ d.components := by
  obtain ⟨c, refers, -⟩ := TransGen.head'_iff.mp reaches
  exact mem_components_of_refers refers

/-- A component has a lower rank than whatever reaches it. -/
theorem Ranks.lt_of_transGen {α : Type} [Preorder α] {rank : Text → α} (ranks : d.Ranks rank)
    (component : b ∈ d.components) (reaches : TransGen d.Refers a b) : rank b < rank a := by
  induction reaches using TransGen.head_induction_on with
  | single refers => exact ranks _ (mem_components_of_refers refers) _ refers component
  | head refers later ih =>
      -- the name in between refers to something, so it is a component
      have between := mem_components_of_transGen later
      exact ih.trans (ranks _ (mem_components_of_refers refers) _ refers between)

/-- **Under a ranking no name reaches itself.** -/
theorem Ranks.not_transGen {α : Type} [Preorder α] {rank : Text → α} (ranks : d.Ranks rank) :
    ¬ TransGen d.Refers name name := by
  intro around
  exact lt_irrefl _ (ranks.lt_of_transGen (mem_components_of_transGen around) around)

/-- A name that does not reach itself reaches fewer names than whatever refers to it. -/
theorem length_closure_lt (refers : d.Refers a b) (once : ¬ TransGen d.Refers b b) :
    (d.closure b).length < (d.closure a).length := by
  have fresh : b ∉ d.closure b := fun h => once (mem_closure_iff.mp h)
  have distinct : (b :: d.closure b).Nodup :=
    List.nodup_cons.mpr ⟨fresh, nodup_closure d b⟩
  have within : b :: d.closure b ⊆ d.closure a := by
    intro x hx
    rw [mem_closure_iff]
    rcases List.mem_cons.mp hx with rfl | hx
    · exact TransGen.single refers
    · exact TransGen.head refers (mem_closure_iff.mp hx)
  exact (distinct.subperm within).length_le

/-- **Without a circle the number of names reached is a rank.** -/
theorem ranks_length_closure (acyclic : d.cyclic = []) :
    d.Ranks fun name => (d.closure name).length := by
  intro c _ b refers component
  apply length_closure_lt refers
  intro around
  have cyclic := mem_cyclic_iff.mpr ⟨component, around⟩
  rw [acyclic] at cyclic
  exact List.not_mem_nil cyclic

/-- A map without cyclic components is a ranked one. -/
theorem cyclic_eq_nil_iff : d.cyclic = [] ↔ ∃ rank : Text → Nat, d.Ranks rank := by
  constructor
  · intro acyclic
    exact ⟨_, ranks_length_closure acyclic⟩
  · rintro ⟨rank, ranks⟩
    rw [List.eq_nil_iff_forall_not_mem]
    intro name cyclic
    exact ranks.not_transGen (mem_cyclic_iff.mp cyclic).2

/-- The cyclic components are those on a circle. -/
theorem mem_cyclic_iff_circle :
    name ∈ d.cyclic ↔ ∃ circle, Circle d.Refers circle ∧ name ∈ circle := by
  rw [mem_cyclic_iff, exists_circle_iff]
  constructor
  · exact fun h => h.2
  · exact fun around => ⟨mem_components_of_transGen around, around⟩

/-- Sorted texts ascend. -/
theorem pairwise_sort (ts : List Text) : (Text.sort ts).Pairwise fun a b => Text.le a b = true := by
  apply List.pairwise_mergeSort
  · intro a b c hab hbc
    simp only [Text.le, decide_eq_true_eq] at hab hbc ⊢
    exact List.le_trans hab hbc
  · intro a b
    simp only [Text.le, Bool.or_eq_true, decide_eq_true_eq]
    exact List.le_total a b

/-- Each cyclic component stands once when each component does. -/
theorem nodup_cyclic (mapping : d.components.Nodup) : d.cyclic.Nodup :=
  (mapping.filter _).perm (List.mergeSort_perm _ _).symm

/-- A failure that sorts the cyclic components and drops repetitions has them as they are. -/
theorem sortUnique_cyclic (mapping : d.components.Nodup) :
    Text.sortUnique d.cyclic = d.cyclic := by
  rw [Text.sortUnique, eraseDups_of_nodup (nodup_cyclic mapping)]
  exact List.mergeSort_of_pairwise (pairwise_sort _)

/-- **Validation accepts exactly the maps that have a topological ranking.**  Any other map fails
with its cyclic components, after one notice for each of them in the same order.  These are the
names on a circle of references, each once and in ascending order; a name that merely leads to a
circle is none of them. -/
theorem validate_iff_ranked (mapping : d.components.Nodup) (notices : Notices) :
    ((d.validate.run.run notices).1 = .ok () ↔ ∃ rank : Text → Nat, d.Ranks rank) ∧
      ((¬ ∃ rank : Text → Nat, d.Ranks rank) → d.validate.run.run notices =
        (.error (.circular d.cyclic),
          notices ++ (d.cyclic.map Notice.dependsOnItself).toArray)) ∧
      d.cyclic.Pairwise (fun a b => Text.le a b = true ∧ a ≠ b) ∧
      ∀ name, name ∈ d.cyclic ↔ ∃ circle, Circle d.Refers circle ∧ name ∈ circle := by
  refine ⟨?_, ?_, (pairwise_sort _).and (nodup_cyclic mapping), fun name => mem_cyclic_iff_circle⟩
  · rw [validate_run, ← cyclic_eq_nil_iff]
    split
    · next acyclic => exact ⟨fun _ => acyclic, fun _ => rfl⟩
    · next cyclic =>
        constructor
        · intro valid
          cases valid
        · intro acyclic
          exact absurd acyclic cyclic
  · intro unranked
    rw [← cyclic_eq_nil_iff] at unranked
    rw [validate_run, if_neg unranked, sortUnique_cyclic mapping]

/-! ### Two components in a circle, and one that leads to them -/

/-- A map in which `a` and `b` refer to each other and `c` leads to them. -/
def crossedDependencies : Dependencies where
  entries := [(['c'], [['a']]), (['b'], [['a'], ['x']]), (['a'], [['b']])]

/-- The map has no ranking, and the failure names `a` and `b` alone. -/
theorem validate_crossedDependencies : crossedDependencies.components.Nodup ∧
    (¬ ∃ rank : Text → Nat, crossedDependencies.Ranks rank) ∧
    crossedDependencies.validate.run.run #[] =
      (.error (.circular [['a'], ['b']]), #[.dependsOnItself ['a'], .dependsOnItself ['b']]) := by
  have mapping : crossedDependencies.components.Nodup := by decide
  have cyclic : crossedDependencies.cyclic = [['a'], ['b']] := by cbv
  obtain ⟨-, fails, -⟩ := validate_iff_ranked mapping #[]
  have unranked : ¬ ∃ rank : Text → Nat, crossedDependencies.Ranks rank := by
    rw [← cyclic_eq_nil_iff, cyclic]
    exact List.cons_ne_nil _ _
  refine ⟨mapping, unranked, ?_⟩
  rw [fails unranked, cyclic]
  rfl

end PageAssembly.Dependencies
