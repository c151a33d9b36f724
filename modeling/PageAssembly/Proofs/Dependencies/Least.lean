import Mathlib.Logic.Function.Iterate
import Mathlib.Order.Bounds.Defs
import PageAssembly.Proofs.Circle
import PageAssembly.Proofs.Dependencies.Closure
import PageAssembly.Proofs.Members

/-!
# The closure is the least closed set

The search behind `Dependencies.closure` counts down the names it has not met.  A search that asks
instead whether a name was reached before takes the same turns, so it ends as well, with the same
names.

## Main definitions

* `Dependencies.Search` — a search under way: the names pending and the names reached
* `Dependencies.turn` — one turn of a search
* `Dependencies.IsClosed` — a set that references from a start do not leave

## Main statements

* `Dependencies.exists_iterate_turn` — the search ends, with the closure
* `Dependencies.closure_isLeast` — the closure is the least closed set, each name once; the start is
  in it exactly when it lies on a circle
-/

namespace PageAssembly.Dependencies

open Relation

/-! ## The search turn by turn -/

/-- A search under way. -/
structure Search where
  /-- The names still to be looked at. -/
  pending : List Text
  /-- The names found. -/
  reached : List Text

/-- **One turn of a search.**  The next name is passed over when it was reached before; otherwise it
is reached, and what it refers to is pending. -/
def turn (d : Dependencies) (s : Search) : Search :=
  match s.pending with
  | [] => s
  | name :: pending =>
    if name ∈ s.reached then ⟨pending, s.reached⟩
    else ⟨d.direct name ++ pending, name :: s.reached⟩

variable {d : Dependencies} {unmet pending reached : List Text} {name start : Text}

/-- Reaching a name moves it from the names not met yet to the names reached. -/
theorem nodup_erase_append_cons (distinct : (unmet ++ reached).Nodup) (hname : name ∈ unmet) :
    (unmet.erase name ++ name :: reached).Nodup := by
  refine distinct.perm ?_
  calc (unmet ++ reached).Perm (name :: unmet.erase name ++ reached) :=
        (List.perm_cons_erase hname).append_right reached
    _ |>.Perm (unmet.erase name ++ name :: reached) := List.perm_middle.symm

/-- The search ends with each name once. -/
theorem nodup_closureFrom (distinct : (unmet ++ reached).Nodup) :
    (closureFrom d unmet pending reached).Nodup := by
  fun_induction closureFrom d unmet pending reached with
  | case1 unmet reached => exact distinct.of_append_right
  | case2 unmet reached name pending hname ih => exact ih (nodup_erase_append_cons distinct hname)
  | case3 unmet reached name pending hname ih => exact ih distinct

/-- At the start no name is met. -/
theorem nodup_mentioned (d : Dependencies) : (d.mentioned ++ []).Nodup := by
  rw [List.append_nil]
  exact nodup_eraseDups _

/-- A closure has each name once. -/
theorem nodup_closure (d : Dependencies) (start : Text) : (d.closure start).Nodup :=
  nodup_closureFrom (nodup_mentioned d)

/-- A pending name has not been met exactly when it has not been reached. -/
theorem Saturating.mem_unmet_iff (inv : Saturating d unmet (name :: pending) reached)
    (distinct : (unmet ++ reached).Nodup) : name ∈ unmet ↔ name ∉ reached := by
  constructor
  · intro h again
    exact (List.nodup_append.mp distinct).2.2 name h name again rfl
  · intro fresh
    have mentioned := inv.mentioned_of_pending name List.mem_cons_self
    exact (inv.met name mentioned).resolve_right fresh

/-- **The search ends.**  After finitely many turns nothing is pending, and the names reached are
those that counting down gives. -/
theorem exists_iterate_turn (inv : Saturating d unmet pending reached)
    (distinct : (unmet ++ reached).Nodup) :
    ∃ turns, d.turn^[turns] ⟨pending, reached⟩ =
      ⟨[], closureFrom d unmet pending reached⟩ := by
  fun_induction closureFrom d unmet pending reached with
  | case1 unmet reached => exact ⟨0, rfl⟩
  | case2 unmet reached name pending hname ih =>
      have fresh := (inv.mem_unmet_iff distinct).mp hname
      obtain ⟨turns, ends⟩ := ih inv.expand (nodup_erase_append_cons distinct hname)
      refine ⟨turns + 1, ?_⟩
      rw [Function.iterate_succ_apply, turn]
      simp only [if_neg fresh]
      exact ends
  | case3 unmet reached name pending hname ih =>
      have again : name ∈ reached := by
        by_contra fresh
        exact hname ((inv.mem_unmet_iff distinct).mpr fresh)
      obtain ⟨turns, ends⟩ := ih (inv.skip hname) distinct
      refine ⟨turns + 1, ?_⟩
      rw [Function.iterate_succ_apply, turn]
      simp only [if_pos again]
      exact ends

/-! ## The least closed set -/

/-- **A set that references from a start do not leave**: it holds what the start refers to, and what
its names refer to. -/
structure IsClosed (d : Dependencies) (start : Text) (S : Set Text) : Prop where
  /-- What the start refers to. -/
  direct : ∀ b ∈ d.direct start, b ∈ S
  /-- What a name of the set refers to. -/
  step : ∀ a ∈ S, ∀ b ∈ d.direct a, b ∈ S

/-- A closed set holds everything that the start reaches. -/
theorem IsClosed.mem_of_transGen {S : Set Text} (closed : IsClosed d start S)
    (reaches : TransGen d.Refers start name) : name ∈ S := by
  induction reaches with
  | single refers => exact closed.direct _ refers
  | tail _ refers ih => exact closed.step _ ih _ refers

theorem isClosed_closure (d : Dependencies) (start : Text) :
    IsClosed d start {name | name ∈ d.closure start} where
  direct b refers := mem_closure_iff.mpr (TransGen.single refers)
  step a ha b refers := mem_closure_iff.mpr ((mem_closure_iff.mp ha).tail refers)

/-- **The closure of a name is the least set that references from it do not leave**, whatever the
map: it holds exactly what is reached by one or more references, each name once, and the start only
when that lies on a circle.  The search for it ends. -/
theorem closure_isLeast (d : Dependencies) (start : Text) :
    (∃ turns, d.turn^[turns] ⟨d.direct start, []⟩ = ⟨[], d.closure start⟩) ∧
      (d.closure start).Nodup ∧
      (∀ name, name ∈ d.closure start ↔ TransGen d.Refers start name) ∧
      IsLeast {S | IsClosed d start S} {name | name ∈ d.closure start} ∧
      (start ∈ d.closure start ↔ ∃ circle, Circle d.Refers circle ∧ start ∈ circle) := by
  refine ⟨exists_iterate_turn (Saturating.start d start) (nodup_mentioned d),
    nodup_closure d start, fun name => mem_closure_iff, ⟨isClosed_closure d start, ?_⟩, ?_⟩
  · intro S closed name hname
    exact closed.mem_of_transGen (mem_closure_iff.mp hname)
  · rw [mem_closure_iff, exists_circle_iff]

end PageAssembly.Dependencies
