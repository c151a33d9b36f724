import Mathlib.Data.List.Perm.Subperm
import Mathlib.Data.List.TakeWhile
import PageAssembly.Expansion
import PageAssembly.Proofs.Circle
import PageAssembly.Proofs.FileTree.Finding

/-!
# Trails of expansions in progress

The expansions in progress follow references from fragment to fragment and never visit a name
twice.  This module bounds their number by the size of the file tree.

## Main definitions

* `Expansion.Refers` — a fragment that can be opened replaces a reference
* `Expansion.Trail` — the names in progress when a name is reached
* `Expansion.IsCycle` — names that refer to one another in a circle

## Main statements

* `Expansion.Trail.length_le` — a trail is no longer than the tree is large, up to one
* `Expansion.Trail.isCycle` — a trail that meets a name again ends with a cycle

### What bounds a trail

Every name of a trail but the first is written in some file of the tree, and the files of a tree
have no more names written in them than bytes.  The names of a trail are distinct.
-/

namespace PageAssembly.Expansion

open Relation

/-- **The reference relation.**  The fragment of `a` can be opened, and one of its lines replaces a
reference to `b`. -/
def Refers (t : FileTree) (directory : Path) (a b : Text) : Prop :=
  ∃ bytes, t.read (Fragment.path directory a) = .ok bytes ∧
    ∃ line ∈ (Stored.lines bytes).delivered, b ∈ Reference.taken line

/-- Following references. -/
abbrev Reaches (t : FileTree) (directory : Path) : Text → Text → Prop :=
  ReflTransGen (Refers t directory)

/-! ## Names written in a tree -/

/-- The names written in the lines of a file. -/
def namesOf : Entry → List Text
  | .file content => (Stored.lines content).delivered.flatMap Reference.names
  | _ => []

/-- The names written in the files of a tree. -/
def written (t : FileTree) : List Text := t.entries.flatMap fun (_, e) => namesOf e

theorem length_flatMap_names_le (lines : List Text) :
    (lines.flatMap Reference.names).length ≤ lines.flatten.length := by
  induction lines with
  | nil => simp
  | cons line lines ih =>
      have := Reference.length_names_le line
      simp only [List.flatMap_cons, List.flatten_cons, List.length_append]
      omega

/-- **A tree has no more names written in it than its size says.** -/
theorem length_written_le (t : FileTree) : (written t).length ≤ t.size := by
  rw [written, FileTree.size]
  induction t.entries with
  | nil => simp
  | cons entry entries ih =>
      obtain ⟨l, e⟩ := entry
      simp only [List.flatMap_cons, List.length_append, List.map_cons, List.foldr_cons]
      have bound : (namesOf e).length ≤ match e with
          | .file content => content.length
          | _ => 0 := by
        cases e with
        | file content =>
            exact (length_flatMap_names_le _).trans (Stored.length_delivered_lines_le content)
        | directory => exact Nat.le_refl 0
        | dangling => exact Nat.le_refl 0
      exact Nat.add_le_add bound ih

/-- What is read at a path is a file of the tree. -/
theorem exists_file_of_read {t : FileTree} {p : Path} {bytes : List UInt8}
    (h : t.read p = .ok bytes) : ∃ l, (l, Entry.file bytes) ∈ t.entries := by
  obtain ⟨l, found⟩ := FileTree.read_eq_ok_iff.mp h
  obtain ⟨-, entry⟩ := FileTree.find_eq_ok found
  have file : t.lookup l ≠ some .directory := by
    rw [← entry]
    simp
  have below : l ≠ [] := FileTree.ne_nil_of_lookup file
  exact ⟨l, FileTree.mem_entries_of_lookup below entry.symm⟩

theorem mem_written_of_refers {t : FileTree} {directory : Path} {a b : Text}
    (h : Refers t directory a b) : b ∈ written t := by
  obtain ⟨bytes, read, line, hline, taken⟩ := h
  obtain ⟨l, file⟩ := exists_file_of_read read
  rw [written, List.mem_flatMap]
  refine ⟨_, file, ?_⟩
  exact List.mem_flatMap.mpr ⟨line, hline, Reference.mem_names_of_mem_taken taken⟩

/-! ## Trails -/

/-- **The names in progress when `name` is reached**, outermost first. -/
structure Trail (t : FileTree) (directory : Path) (inProgress : List Text) (name : Text) :
    Prop where
  /-- No name is visited twice. -/
  nodup : inProgress.Nodup
  /-- Each name refers to the next one. -/
  chain : (inProgress ++ [name]).IsChain (Refers t directory)

/-- Distinct names that refer to one another in a circle. -/
structure IsCycle (t : FileTree) (directory : Path) (names : List Text) : Prop where
  /-- No name occurs twice. -/
  nodup : names.Nodup
  /-- Each name refers to the next one, and the last to the first. -/
  closed : ∃ first, names.head? = some first ∧ (names ++ [first]).IsChain (Refers t directory)

namespace Trail

variable {t : FileTree} {directory : Path} {inProgress : List Text} {a b name : Text}

/-- Nothing is in progress at the start. -/
theorem start (t : FileTree) (directory : Path) (name : Text) : Trail t directory [] name where
  nodup := List.nodup_nil
  chain := List.isChain_singleton _

/-- A reference on a fragment that is not yet in progress makes the trail longer. -/
theorem extend (trail : Trail t directory inProgress a) (fresh : a ∉ inProgress)
    (refers : Refers t directory a b) : Trail t directory (inProgress ++ [a]) b where
  nodup := by
    rw [List.nodup_append]
    refine ⟨trail.nodup, List.nodup_singleton a, ?_⟩
    rintro x hx y hy rfl
    exact fresh (List.mem_singleton.mp hy ▸ hx)
  chain := by
    rw [List.isChain_append]
    refine ⟨trail.chain, List.isChain_singleton b, ?_⟩
    intro x hx y hy
    simp only [List.getLast?_concat, Option.mem_def, Option.some.injEq, List.head?_cons] at hx hy
    exact hx ▸ hy ▸ refers

/-- Along a trail every name reaches every later one. -/
theorem pairwise (trail : Trail t directory inProgress name) :
    (inProgress ++ [name]).Pairwise (TransGen (Refers t directory)) :=
  List.isChain_iff_pairwise.mp (trail.chain.imp fun _ _ => TransGen.single)

/-- Every name in progress reaches the name that is reached. -/
theorem transGen (trail : Trail t directory inProgress name) {p : Text} (hp : p ∈ inProgress) :
    TransGen (Refers t directory) p name :=
  (List.pairwise_append.mp trail.pairwise).2.2 p hp name List.mem_cons_self

/-- **A trail is bounded by the size of the tree.** -/
theorem length_le (trail : Trail t directory inProgress name) : inProgress.length ≤ t.size + 1 := by
  have written_tail : ∀ x ∈ inProgress.tail, x ∈ written t := by
    cases inProgress with
    | nil => exact fun x hx => absurd hx List.not_mem_nil
    | cons first later =>
        intro x hx
        -- a name behind the first is referred to by some fragment on the way to it
        have reached := (List.pairwise_cons.mp trail.pairwise).1 x (List.mem_append_left _ hx)
        obtain ⟨y, -, refers⟩ := TransGen.tail'_iff.mp reached
        exact mem_written_of_refers refers
  have distinct : inProgress.tail.Nodup := trail.nodup.sublist (List.tail_sublist _)
  have bound := (distinct.subperm written_tail).length_le
  have size := length_written_le t
  rw [List.length_tail] at bound
  omega

/-- Where a budget and a trail outweigh the tree, the budget is not used up. -/
theorem exists_budget (trail : Trail t directory inProgress name) {budget : Nat}
    (enough : t.size + 2 ≤ budget + inProgress.length) : ∃ n, budget = n + 1 := by
  have := trail.length_le
  exact ⟨budget - 1, by omega⟩

/-- **A trail that meets a name again ends with a cycle**: the names from that one on. -/
theorem isCycle (trail : Trail t directory inProgress name) (again : name ∈ inProgress) :
    IsCycle t directory (inProgress.dropWhile fun n => !(n == name)) where
  nodup := trail.nodup.sublist (List.dropWhile_sublist _)
  closed := by
    have nonempty : inProgress.dropWhile (fun n => !(n == name)) ≠ [] := by
      rw [Ne, List.dropWhile_eq_nil_iff]
      intro all
      simpa using all name again
    have first := List.head_dropWhile_not (fun n => !(n == name)) nonempty
    refine ⟨name, ?_, ?_⟩
    · rw [List.head?_eq_some_head nonempty]
      simpa using first
    · obtain ⟨before, split⟩ := List.dropWhile_suffix (l := inProgress) fun n => !(n == name)
      refine trail.chain.suffix ⟨before, ?_⟩
      rw [← List.append_assoc, split]

end Trail

namespace IsCycle

variable {t : FileTree} {directory : Path} {names : List Text}

/-- The names of a cycle reach themselves by any relation that has the references of the cycle. -/
theorem transGen_of_refers {r : Text → Text → Prop} (cycle : IsCycle t directory names)
    (has : ∀ a ∈ names, ∀ b, Refers t directory a b → r a b) {x : Text} (hx : x ∈ names) :
    TransGen r x x := by
  obtain ⟨first, head, chain⟩ := cycle.closed
  obtain ⟨later, rfl⟩ : ∃ later, names = first :: later := List.head?_eq_some_iff.mp head
  have edges : (first :: later ++ [first]).IsChain r := by
    refine chain.imp_of_mem_imp fun a b ha _ refers => has a ?_ b refers
    rcases List.mem_append.mp ha with ha | ha
    · exact ha
    · exact List.mem_singleton.mp ha ▸ List.mem_cons_self
  exact transGen_of_isChain edges hx

/-- The names of a cycle reach themselves. -/
theorem transGen (cycle : IsCycle t directory names) {x : Text} (hx : x ∈ names) :
    TransGen (Refers t directory) x x :=
  cycle.transGen_of_refers (fun _ _ _ refers => refers) hx

theorem ne_nil (cycle : IsCycle t directory names) : names ≠ [] := by
  obtain ⟨first, head, -⟩ := cycle.closed
  rintro rfl
  simp at head

end IsCycle

/-- A directory with fragments, for examples. -/
def exampleDirectory : Path := ⟨.relative, [['c']]⟩

end PageAssembly.Expansion
