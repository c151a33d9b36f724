import Mathlib.Logic.Relation
import PageAssembly.Dependencies

/-!
# The closure is reachability

`Dependencies.closure` is a worklist; this module says what it computes.

## Main definitions

* `Dependencies.Refers` — a component refers to a name
* `Dependencies.Saturating` — the invariant of the worklist

## Main statements

* `Dependencies.mem_closure_iff` — the closure of a name holds what the name reaches by one or more
  references
* `Dependencies.mem_cyclic_iff` — the cyclic components are those that reach themselves

### What carries the completeness

Every mentioned name is still unmet or already reached, and whatever a reached name refers to is
reached or pending.  When nothing is pending any more, the reached names are therefore closed under
references.
-/

namespace PageAssembly.Dependencies

open Relation

/-- A component refers to a name. -/
def Refers (d : Dependencies) (a b : Text) : Prop := b ∈ d.direct a

theorem mem_mentioned_of_refers {d : Dependencies} {a b : Text} (h : d.Refers a b) :
    b ∈ d.mentioned := by
  rw [Refers, direct] at h
  cases found : d.entries.lookup a with
  | none => simp [found] at h
  | some names =>
      rw [found] at h
      obtain ⟨before, after, split, -⟩ := List.lookup_eq_some_iff.mp found
      rw [mentioned, List.mem_eraseDups, List.mem_flatMap]
      exact ⟨(a, names), by simp [split], h⟩

/-- Only a component refers to something. -/
theorem mem_components_of_refers {d : Dependencies} {a b : Text} (h : d.Refers a b) :
    a ∈ d.components := by
  rw [Refers, direct] at h
  cases found : d.entries.lookup a with
  | none =>
      rw [found] at h
      cases h
  | some names =>
      obtain ⟨before, after, split, -⟩ := List.lookup_eq_some_iff.mp found
      exact List.mem_map.mpr ⟨(a, names), by simp [split], rfl⟩

/-- Everything the worklist returns has any property that its names have and that references hand
on. -/
theorem closureFrom_induction {d : Dependencies} {S : Text → Prop}
    (step : ∀ a b, S a → d.Refers a b → S b) {unmet pending reached : List Text}
    (hpending : ∀ x ∈ pending, S x) (hreached : ∀ x ∈ reached, S x) :
    ∀ x ∈ closureFrom d unmet pending reached, S x := by
  fun_induction closureFrom d unmet pending reached with
  | case1 => exact hreached
  | case2 unmet reached name pending hname ih =>
      rw [List.forall_mem_cons] at hpending
      refine ih ?_ ?_
      · intro x hx
        rcases List.mem_append.mp hx with hx | hx
        · exact step name x hpending.1 hx
        · exact hpending.2 x hx
      · rw [List.forall_mem_cons]
        exact ⟨hpending.1, hreached⟩
  | case3 unmet reached name pending hname ih =>
      rw [List.forall_mem_cons] at hpending
      exact ih hpending.2 hreached

/-- **The invariant of the worklist.** -/
structure Saturating (d : Dependencies) (unmet pending reached : List Text) : Prop where
  /-- No mentioned name is lost. -/
  met : ∀ x ∈ d.mentioned, x ∈ unmet ∨ x ∈ reached
  /-- Only mentioned names are pending. -/
  mentioned_of_pending : ∀ x ∈ pending, x ∈ d.mentioned
  /-- What a reached name refers to is reached or pending. -/
  handed_on : ∀ a ∈ reached, ∀ b, d.Refers a b → b ∈ reached ∨ b ∈ pending

namespace Saturating

variable {d : Dependencies} {unmet pending reached : List Text} {name : Text}

/-- At the start nothing is reached. -/
theorem start (d : Dependencies) (name : Text) :
    Saturating d d.mentioned (d.direct name) [] where
  met _ hx := Or.inl hx
  mentioned_of_pending _ hx := mem_mentioned_of_refers (a := name) hx
  handed_on _ ha := absurd ha List.not_mem_nil

/-- Expanding a name keeps the invariant. -/
theorem expand (inv : Saturating d unmet (name :: pending) reached) :
    Saturating d (unmet.erase name) (d.direct name ++ pending) (name :: reached) where
  met x hx := by
    by_cases same : x = name
    · exact Or.inr (same ▸ List.mem_cons_self)
    · rcases inv.met x hx with h | h
      · exact Or.inl ((List.mem_erase_of_ne same).mpr h)
      · exact Or.inr (List.mem_cons_of_mem _ h)
  mentioned_of_pending x hx := by
    rcases List.mem_append.mp hx with hx | hx
    · exact mem_mentioned_of_refers (a := name) hx
    · exact inv.mentioned_of_pending x (List.mem_cons_of_mem _ hx)
  handed_on a ha b hab := by
    rcases List.mem_cons.mp ha with rfl | ha
    · exact Or.inr (List.mem_append_left _ hab)
    · rcases inv.handed_on a ha b hab with h | h
      · exact Or.inl (List.mem_cons_of_mem _ h)
      · rcases List.mem_cons.mp h with rfl | h
        · exact Or.inl List.mem_cons_self
        · exact Or.inr (List.mem_append_right _ h)

/-- So does dropping a name that was met before, for such a name is reached. -/
theorem skip (inv : Saturating d unmet (name :: pending) reached) (hname : name ∉ unmet) :
    Saturating d unmet pending reached where
  met := inv.met
  mentioned_of_pending x hx := inv.mentioned_of_pending x (List.mem_cons_of_mem _ hx)
  handed_on a ha b hab := by
    rcases inv.handed_on a ha b hab with h | h
    · exact Or.inl h
    · rcases List.mem_cons.mp h with rfl | h
      -- the name that is dropped was pending, so it is mentioned and no longer unmet
      · have mentioned := inv.mentioned_of_pending b List.mem_cons_self
        exact Or.inl ((inv.met b mentioned).resolve_left hname)
      · exact Or.inr h

end Saturating

/-- **A saturating worklist ends with everything it had, closed under references.** -/
theorem closureFrom_closed {d : Dependencies} {unmet pending reached : List Text}
    (inv : Saturating d unmet pending reached) :
    (∀ x ∈ pending, x ∈ closureFrom d unmet pending reached) ∧
      (∀ x ∈ reached, x ∈ closureFrom d unmet pending reached) ∧
      ∀ a ∈ closureFrom d unmet pending reached, ∀ b, d.Refers a b →
        b ∈ closureFrom d unmet pending reached := by
  fun_induction closureFrom d unmet pending reached with
  | case1 unmet reached =>
      refine ⟨fun x hx => absurd hx List.not_mem_nil, fun x hx => hx, fun a ha b hab => ?_⟩
      exact (inv.handed_on a ha b hab).resolve_right List.not_mem_nil
  | case2 unmet reached name pending hname ih =>
      obtain ⟨hpending, hreached, closed⟩ := ih inv.expand
      rw [List.forall_mem_cons] at hreached
      refine ⟨?_, hreached.2, closed⟩
      rw [List.forall_mem_cons]
      exact ⟨hreached.1, fun x hx => hpending x (List.mem_append_right _ hx)⟩
  | case3 unmet reached name pending hname ih =>
      obtain ⟨hpending, hreached, closed⟩ := ih (inv.skip hname)
      refine ⟨?_, hreached, closed⟩
      rw [List.forall_mem_cons]
      have mentioned := inv.mentioned_of_pending name List.mem_cons_self
      exact ⟨hreached name ((inv.met name mentioned).resolve_left hname), hpending⟩

/-- **The closure of a name is what it reaches by one or more references.** -/
theorem mem_closure_iff {d : Dependencies} {start name : Text} :
    name ∈ d.closure start ↔ TransGen d.Refers start name := by
  obtain ⟨hpending, -, closed⟩ := closureFrom_closed (Saturating.start d start)
  constructor
  · intro h
    refine closureFrom_induction (S := TransGen d.Refers start) ?_ ?_ ?_ name h
    · exact fun a b ha hab => ha.tail hab
    · exact fun x hx => TransGen.single hx
    · exact fun x hx => absurd hx List.not_mem_nil
  · intro h
    induction h with
    | single hab => exact hpending _ hab
    | tail _ hbc ih => exact closed _ ih _ hbc

/-- The cyclic components are the ones that reach themselves. -/
theorem mem_cyclic_iff {d : Dependencies} {name : Text} :
    name ∈ d.cyclic ↔ name ∈ d.components ∧ TransGen d.Refers name name := by
  rw [cyclic, Text.mem_sort, List.mem_filter, decide_eq_true_iff, mem_closure_iff]

end PageAssembly.Dependencies
