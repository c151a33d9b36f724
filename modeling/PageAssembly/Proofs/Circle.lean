import Mathlib.Data.List.Chain
import Mathlib.Data.List.Nodup
import Mathlib.Logic.Relation
import PageAssembly.Text.Blank

/-!
# Circles of a relation

## Main definitions

* `Circle` — distinct names that a relation leads through in a circle

## Main statements

* `exists_circle_iff` — a name is on a circle exactly when it reaches itself
-/

namespace PageAssembly

open Relation

/-- **Distinct names that a relation leads through in a circle**: from each name to the next one,
and from the last to the first. -/
structure Circle (r : Text → Text → Prop) (names : List Text) : Prop where
  /-- No name occurs twice. -/
  nodup : names.Nodup
  /-- The way leads around. -/
  closed : ∃ first, names.head? = some first ∧ (names ++ [first]).IsChain r

variable {r : Text → Text → Prop} {x y : Text}

/-- On a way that ends where it starts, every name reaches itself. -/
theorem transGen_of_isChain {first : Text} {later : List Text}
    (chain : (first :: later ++ [first]).IsChain r) (hx : x ∈ first :: later) :
    TransGen r x x := by
  have pairwise : (first :: later ++ [first]).Pairwise (TransGen r) :=
    List.isChain_iff_pairwise.mp (chain.imp fun _ _ => TransGen.single)
  -- from any name on to the first one, which closes the circle
  have around : TransGen r x first :=
    (List.pairwise_append.mp pairwise).2.2 x hx first List.mem_cons_self
  rcases List.mem_cons.mp hx with rfl | hx
  · exact around
  · exact around.trans ((List.pairwise_cons.mp pairwise).1 x (List.mem_append_left _ hx))

theorem Circle.transGen {names : List Text} (circle : Circle r names) (hx : x ∈ names) :
    TransGen r x x := by
  obtain ⟨first, head, chain⟩ := circle.closed
  obtain ⟨later, rfl⟩ : ∃ later, names = first :: later := List.head?_eq_some_iff.mp head
  exact transGen_of_isChain chain hx

theorem isChain_cons_of_head {path : List Text} (step : r x y) (head : path.head? = some y)
    (chain : path.IsChain r) : (x :: path).IsChain r := by
  rw [List.isChain_cons]
  refine ⟨?_, chain⟩
  intro next hnext
  rw [head, Option.mem_some_iff] at hnext
  exact hnext ▸ step

/-- **A name that is reached is reached without visiting a name twice**: a way that comes back to a
name is cut short. -/
theorem exists_path (reaches : ReflTransGen r x y) :
    ∃ path : List Text, path.Nodup ∧ path.IsChain r ∧ path.head? = some x ∧
      path.getLast? = some y := by
  induction reaches using ReflTransGen.head_induction_on with
  | refl => exact ⟨[y], List.nodup_singleton y, List.isChain_singleton y, rfl, rfl⟩
  | @head a c step _ ih =>
      obtain ⟨path, nodup, chain, head, last⟩ := ih
      by_cases again : a ∈ path
      · -- the rest of the way, from the later visit on
        obtain ⟨before, rest, rfl⟩ := List.append_of_mem again
        refine ⟨a :: rest, nodup.of_append_right, chain.suffix ⟨before, rfl⟩, rfl, ?_⟩
        rw [List.getLast?_append_of_ne_nil _ (List.cons_ne_nil a rest)] at last
        exact last
      · refine ⟨a :: path, List.nodup_cons.mpr ⟨again, nodup⟩, ?_, rfl, ?_⟩
        · exact isChain_cons_of_head step head chain
        · rw [List.getLast?_cons, last]
          rfl

/-- **A name is on a circle exactly when it reaches itself.** -/
theorem exists_circle_iff : (∃ names, Circle r names ∧ x ∈ names) ↔ TransGen r x x := by
  constructor
  · rintro ⟨names, circle, hx⟩
    exact circle.transGen hx
  · intro around
    obtain ⟨next, step, back⟩ := TransGen.head'_iff.mp around
    obtain ⟨path, nodup, chain, head, last⟩ := exists_path back
    obtain ⟨front, rfl⟩ := List.getLast?_eq_some_iff.mp last
    refine ⟨x :: front, ⟨List.nodup_append_comm.mp nodup, x, rfl, ?_⟩, List.mem_cons_self⟩
    exact isChain_cons_of_head step head chain

end PageAssembly
