import PageAssembly.Proofs.Dependencies.Ranking
import PageAssembly.Proofs.FileTree.Entry

/-!
# Directories as they are listed

A tree in which every location stands once lists the names in a directory in ascending order, each
once.

## Main definitions

* `FileTree.Distinct` — every location stands once
* `FileTree.Lawful` — a tree as a file system holds it

## Main statements

* `FileTree.Distinct.pairwise_names` — names are listed in ascending order
* `FileTree.find_makeDirectories` — a directory that could be made is there
* `FileTree.barrier?_of_find` — nothing is wrong with a path at which something is found
-/

namespace PageAssembly.FileTree

variable {t t' : FileTree} {p : Path} {l : Location} {e : Option Entry} {name : Text}

/-! ## Each location once -/

/-- **Every location stands once.** -/
def Distinct (t : FileTree) : Prop := (t.entries.map Prod.fst).Nodup

namespace Distinct

theorem put (distinct : t.Distinct) (l : Location) (e : Entry) : (t.put l e).Distinct := by
  refine List.nodup_cons.mpr ⟨?_, ?_⟩
  · intro member
    obtain ⟨entry, kept, rfl⟩ := List.mem_map.mp member
    exact absurd (List.mem_filter.mp kept).2 (by simp)
  · exact distinct.sublist (List.filter_sublist.map _)

theorem makeDirectory (distinct : t.Distinct) (made : t.makeDirectory p = .ok t') :
    t'.Distinct := by
  rw [FileTree.makeDirectory] at made
  split at made
  · cases made
  · obtain rfl := Except.ok.inj made
    exact distinct.put _ _
  · cases made

theorem makeDirectories (distinct : t.Distinct) (p : Path) :
    (t.makeDirectories p).1.Distinct := by
  fun_induction FileTree.makeDirectories t p with
  | case1 p t' made => exact distinct.makeDirectory made
  | case2 => exact distinct
  | case3 p q missing parts t' f above ih => simpa only [above] using ih
  | case4 p q missing parts t' above t'' made ih =>
      have parent : t'.Distinct := by simpa only [above] using ih
      exact parent.makeDirectory made
  | case5 p q missing parts t' above f failed ih => simpa only [above] using ih
  | case6 => exact distinct

theorem nodup_names (distinct : t.Distinct) (l : Location) : (t.names l).Nodup := by
  have named : t.names l = Text.sort ((t.entries.map Prod.fst).filterMap fun k =>
      if k ≠ [] ∧ k.dropLast = l then k.getLast? else none) := by
    rw [names, List.filterMap_map]
    rfl
  rw [named, Text.sort]
  refine (List.Nodup.filterMap ?_ distinct).perm (List.mergeSort_perm _ _).symm
  intro k k' name hk hk'
  -- a location is told by its directory and its last name
  simp only [Option.mem_def, Option.ite_none_right_eq_some] at hk hk'
  rw [← List.dropLast_append_getLast? _ hk.2, ← List.dropLast_append_getLast? _ hk'.2, hk.1.2,
    hk'.1.2]

/-- **Names are listed in ascending order**, each once. -/
theorem pairwise_names (distinct : t.Distinct) (l : Location) :
    (t.names l).Pairwise fun a b => Text.le a b = true ∧ a ≠ b :=
  (Dependencies.pairwise_sort _).and (distinct.nodup_names l)

end Distinct

/-- **A tree as a file system holds it**: every location stands once, and no name is empty or
`..`. -/
structure Lawful (t : FileTree) : Prop where
  /-- Every location stands once. -/
  distinct : t.Distinct
  /-- No name is `..`. -/
  plain : t.Plain
  /-- No name is empty. -/
  named : t.EveryName (· ≠ [])

/-! ## Paths at which something is found -/

theorem byteLength_le_of_walk {here : Location} {parts : List Text}
    (leads : t.walk here parts = .ok l) : ∀ part ∈ parts, byteLength part ≤ nameLimit := by
  fun_induction walk t here parts with
  | case1 => exact fun part member => absurd member List.not_mem_nil
  | case2 here parts _ ih =>
      exact List.forall_mem_cons.mpr ⟨by decide, ih leads⟩
  | case3 => cases leads
  | case4 here part parts _ _ short ih =>
      exact List.forall_mem_cons.mpr ⟨Nat.le_of_not_lt short, ih leads⟩
  | case5 => cases leads
  | case6 => cases leads

/-- **Nothing is wrong with a path at which something is found.** -/
theorem barrier?_of_find (found : t.find p = .ok (l, e)) : barrier? p = none := by
  obtain ⟨clean, located, -⟩ := find_eq_ok_iff.mp found
  obtain ⟨short, leads⟩ := locate_eq_ok_iff.mp located
  have narrow : byteLength p.name ≤ nameLimit := by
    cases parts : p.parts with
    | nil => simp [Path.name, parts, byteLength]
    | cons part rest =>
        refine byteLength_le_of_walk leads p.name ?_
        rw [Path.name, parts, List.getLastD_eq_getLast?, List.getLast?_eq_some_getLast (by simp)]
        exact List.getLast_mem _
  rw [barrier?, if_neg clean, if_neg]
  omega

theorem find_makeDirectory (made : t.makeDirectory p = .ok t') :
    t'.find p = .ok (p.resolve t.workingDirectory, some .directory) := by
  have alters : Alters ∅ {p.resolve t.workingDirectory} t t' := makeDirectory_alters made rfl
  rw [makeDirectory] at made
  split at made
  · cases made
  · next l found =>
      obtain ⟨rfl, nothing⟩ := find_eq_ok found
      rw [alters.find found]
      obtain rfl := Except.ok.inj made
      rw [lookup_put t (ne_nil_of_lookup_eq_none nothing.symm), if_pos rfl]
  · cases made

theorem find_of_acceptDirectory {f : FileFailure} (accepted : t.acceptDirectory p f = .ok ()) :
    t.find p = .ok (p.resolve t.workingDirectory, some .directory) := by
  rw [acceptDirectory] at accepted
  split at accepted
  · split at accepted
    · next there =>
        rw [isDirectory, entry?] at there
        split at there
        · cases there
        · next l entry other found =>
            obtain ⟨rfl, -⟩ := find_eq_ok found
            have directory : entry = some .directory := of_decide_eq_true (Except.ok.inj there)
            rw [found, directory]
        · cases there
        · cases there
    · cases accepted
    · cases accepted
  · cases accepted

/-- **A directory that could be made is there.** -/
theorem find_makeDirectories (made : (t.makeDirectories p).2 = .ok ()) :
    (t.makeDirectories p).1.find p = .ok (p.resolve t.workingDirectory, some .directory) := by
  fun_induction makeDirectories t p with
  | case1 p t' made' => exact find_makeDirectory made'
  | case2 => cases made
  | case3 => cases made
  | case4 p q missing parts t' above t'' made' ih =>
      have same : t'.workingDirectory = t.workingDirectory := by
        rw [← makeDirectories_workingDirectory t p.parent, above]
      rw [← same]
      exact find_makeDirectory made'
  | case5 p q missing parts t' above f failed ih =>
      have same : t'.workingDirectory = t.workingDirectory := by
        rw [← makeDirectories_workingDirectory t p.parent, above]
      rw [← same]
      exact find_of_acceptDirectory made
  | case6 => exact find_of_acceptDirectory made

end PageAssembly.FileTree
