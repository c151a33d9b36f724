import Mathlib.Data.List.Induction
import Mathlib.Data.List.Nodup

/-!
# Members of a list

## Main statements

* `nodup_eraseDups`, `eraseDups_of_nodup` — without repetitions each member is there once
* `eraseDups_concat`, `eraseDups_append_of_subset` — new members and known ones
* `front_eq_of_length_filterMap` — a member with a value is known from the number of values before
  it
-/

namespace PageAssembly

/-! ## First occurrences -/

section EraseDups

variable {α : Type} [BEq α] [LawfulBEq α] {l m : List α} {a : α}

/-- Known members add nothing. -/
theorem eraseDups_append_of_subset (h : m ⊆ l) : (l ++ m).eraseDups = l.eraseDups := by
  have nothing : m.removeAll l = [] := by
    simpa [List.removeAll, List.filter_eq_nil_iff] using fun x hx => h hx
  rw [List.eraseDups_append, nothing, List.eraseDups_nil, List.append_nil]

/-- A new member comes last. -/
theorem eraseDups_concat (h : a ∉ l) : (l ++ [a]).eraseDups = l.eraseDups ++ [a] := by
  have new : [a].removeAll l = [a] := by simp [List.removeAll, h]
  rw [List.eraseDups_append, new]
  rfl

/-- Dropping repetitions leaves each member once. -/
theorem nodup_eraseDups (l : List α) : l.eraseDups.Nodup := by
  induction l using List.reverseRecOn with
  | nil => exact List.nodup_nil
  | append_singleton l a ih =>
      by_cases h : a ∈ l
      · have known : [a] ⊆ l := fun x hx => List.mem_singleton.mp hx ▸ h
        rwa [eraseDups_append_of_subset known]
      · rw [eraseDups_concat h]
        exact List.nodup_append.mpr ⟨ih, List.nodup_singleton a, fun x hx y hy same =>
          h (List.mem_eraseDups.mp (List.mem_singleton.mp hy ▸ same ▸ hx))⟩

/-- Where nothing is repeated, nothing is dropped. -/
theorem eraseDups_of_nodup (distinct : l.Nodup) : l.eraseDups = l := by
  induction l using List.reverseRecOn with
  | nil => rfl
  | append_singleton l a ih =>
      obtain ⟨before, -, apart⟩ := List.nodup_append.mp distinct
      have new : a ∉ l := fun h => apart a h a (List.mem_singleton.mpr rfl) rfl
      rw [eraseDups_concat new, ih before]

end EraseDups

/-! ## Members with a value -/

/-- A member with a value is known from the number of values before it. -/
theorem front_eq_of_length_filterMap {α β : Type} {f : α → Option β}
    {front front' back back' : List α} {a a' : α}
    (same : front ++ a :: back = front' ++ a' :: back') (value : (f a).isSome)
    (value' : (f a').isSome)
    (number : (front.filterMap f).length = (front'.filterMap f).length) : front = front' := by
  induction front generalizing front' with
  | nil =>
      cases front' with
      | nil => rfl
      | cons first front' =>
          obtain ⟨rfl, -⟩ := List.cons.inj same
          obtain ⟨b, found⟩ := Option.isSome_iff_exists.mp value
          rw [List.filterMap_cons_some found] at number
          cases number
  | cons first front ih =>
      cases front' with
      | nil =>
          obtain ⟨rfl, -⟩ := List.cons.inj same
          obtain ⟨b, found⟩ := Option.isSome_iff_exists.mp value'
          rw [List.filterMap_cons_some found] at number
          cases number
      | cons first' front' =>
          obtain ⟨rfl, rest⟩ := List.cons.inj same
          refine congrArg (first :: ·) (ih rest ?_)
          cases found : f first with
          | none => rwa [List.filterMap_cons_none found, List.filterMap_cons_none found] at number
          | some b =>
              rw [List.filterMap_cons_some found, List.filterMap_cons_some found] at number
              exact Nat.succ.inj number

end PageAssembly
