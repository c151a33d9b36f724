import Mathlib.Data.List.Nodup
import PageAssembly.Proofs.Survey.Agreement

/-!
# Where references are written

A reference is written in a document or in a fragment, as one of its references from left to right.
Following references depth first, without a memo, comes to the same place once for each path that
leads there.

## Main definitions

* `Expansion.Occurrence` — one place where a reference is written
* `Expansion.occurrences` — the places in a document or in a fragment
* `Expansion.Visits` — the references without a fragment that are met depth first
* `Expansion.Begins` — those that have been met when the way is broken off
* `Expansion.Written` — the places in a document and in all fragments it leads to

## Main statements

* `Expansion.Visits.unique` — there is one way to go
* `Expansion.Visits.mem_iff` — it meets exactly the places of references without a fragment
-/

namespace PageAssembly.Expansion

/-- **One place where a reference is written.** -/
structure Occurrence where
  /-- The component in whose fragment the reference is written; none for a document. -/
  owner : Option Text
  /-- The number of references before it in the document or fragment. -/
  index : Nat
  /-- The number of its line, counted from one. -/
  line : Nat
  /-- The name that is referred to. -/
  name : Text
  deriving DecidableEq, Repr

/-- The replaced references of numbered lines, each with the number of its line. -/
def referencesFrom (first : Nat) (lines : List Text) : List (Nat × Text) :=
  (lines.zipIdx first).flatMap fun (line, number) => (Reference.taken line).map (number, ·)

/-- References as places of their owner, where a number of references precede them. -/
def placed (owner : Option Text) (before : Nat) (references : List (Nat × Text)) :
    List Occurrence :=
  (references.zipIdx before).map fun ((line, name), index) => ⟨owner, index, line, name⟩

/-- **The places of references in some lines**, from left to right. -/
def occurrences (owner : Option Text) (lines : List Text) : List Occurrence :=
  placed owner 0 (referencesFrom 1 lines)

theorem placed_append (owner : Option Text) (before : Nat) (first second : List (Nat × Text)) :
    placed owner before (first ++ second) =
      placed owner before first ++ placed owner (before + first.length) second := by
  rw [placed, List.zipIdx_append, List.map_append]
  rfl

theorem owner_of_mem_placed {owner : Option Text} {before : Nat} {references : List (Nat × Text)}
    {o : Occurrence} (h : o ∈ placed owner before references) : o.owner = owner := by
  obtain ⟨_, -, rfl⟩ := List.mem_map.mp h
  rfl

/-- No place is counted twice. -/
theorem nodup_occurrences (owner : Option Text) (lines : List Text) :
    (occurrences owner lines).Nodup := by
  refine List.Nodup.of_map Occurrence.index ?_
  have indices : (occurrences owner lines).map Occurrence.index =
      ((referencesFrom 1 lines).zipIdx 0).map Prod.snd := List.map_map
  rw [indices, List.zipIdx_map_snd]
  exact List.nodup_range'

/-! ## Going depth first -/

section Visits

variable {t : FileTree} {directory : Path} {text : Text} {o : Occurrence}
  {first second todo seen seen' : List Occurrence}

/-- **The references without a fragment that are met on the way through some places**, depth first
and from left to right.  A fragment is gone through at each reference to it, also when it was gone
through before. -/
inductive Visits (t : FileTree) (directory : Path) : List Occurrence → List Occurrence → Prop
  /-- No place is left. -/
  | done : Visits t directory [] []
  /-- A reference without a fragment is met where it is written. -/
  | missing {o : Occurrence} {todo seen : List Occurrence} :
      ¬ Fragment.Opens t directory o.name → Visits t directory todo seen →
      Visits t directory (o :: todo) (o :: seen)
  /-- A reference with a fragment leads through the places in the fragment. -/
  | fragment {o : Occurrence} {todo inside seen : List Occurrence} {bytes : List UInt8} :
      t.read (Fragment.path directory o.name) = .ok bytes →
      Visits t directory (occurrences (some o.name) (Stored.lines bytes).delivered) inside →
      Visits t directory todo seen → Visits t directory (o :: todo) (inside ++ seen)

/-- **The references without a fragment that have been met when the way is broken off.** -/
inductive Begins (t : FileTree) (directory : Path) : List Occurrence → List Occurrence → Prop
  /-- The way is broken off here. -/
  | stop {todo : List Occurrence} : Begins t directory todo []
  /-- A reference without a fragment is met where it is written. -/
  | missing {o : Occurrence} {todo seen : List Occurrence} :
      ¬ Fragment.Opens t directory o.name → Begins t directory todo seen →
      Begins t directory (o :: todo) (o :: seen)
  /-- A fragment is gone through, and the way is broken off behind it. -/
  | fragment {o : Occurrence} {todo inside seen : List Occurrence} {bytes : List UInt8} :
      t.read (Fragment.path directory o.name) = .ok bytes →
      Visits t directory (occurrences (some o.name) (Stored.lines bytes).delivered) inside →
      Begins t directory todo seen → Begins t directory (o :: todo) (inside ++ seen)
  /-- The way is broken off inside a fragment. -/
  | within {o : Occurrence} {todo inside : List Occurrence} {bytes : List UInt8} :
      t.read (Fragment.path directory o.name) = .ok bytes →
      Begins t directory (occurrences (some o.name) (Stored.lines bytes).delivered) inside →
      Begins t directory (o :: todo) inside

/-- **The places in a document and in all fragments that it leads to.** -/
inductive Written (t : FileTree) (directory : Path) (text : Text) : Occurrence → Prop
  /-- A place in the document. -/
  | document {o : Occurrence} : o ∈ occurrences none (Text.splitLines text) →
      Written t directory text o
  /-- A place in a fragment that is referred to. -/
  | fragment {above o : Occurrence} {bytes : List UInt8} : Written t directory text above →
      t.read (Fragment.path directory above.name) = .ok bytes →
      o ∈ occurrences (some above.name) (Stored.lines bytes).delivered →
      Written t directory text o

namespace Visits

/-- **There is one way to go.** -/
theorem unique (visits : Visits t directory todo seen) (visits' : Visits t directory todo seen') :
    seen = seen' := by
  induction visits generalizing seen' with
  | done =>
      cases visits'
      rfl
  | missing absent _ ih =>
      cases visits' with
      | missing _ later => rw [ih later]
      | fragment read _ _ => exact absurd ⟨_, read⟩ absent
  | fragment read _ _ inner outer =>
      cases visits' with
      | missing absent _ => exact absurd ⟨_, read⟩ absent
      | fragment read' inside' later' =>
          obtain rfl := Except.ok.inj (read.symm.trans read')
          rw [inner inside', outer later']

/-- Places one after the other. -/
theorem append (visits : Visits t directory first seen)
    (visits' : Visits t directory second seen') :
    Visits t directory (first ++ second) (seen ++ seen') := by
  induction visits with
  | done => exact visits'
  | missing absent _ ih => exact .missing absent ih
  | fragment read inside _ _ ih =>
      rw [List.append_assoc]
      exact .fragment read inside ih

/-- The way through one of the places is a part of the whole way. -/
theorem exists_of_mem (visits : Visits t directory todo seen) (ho : o ∈ todo) :
    ∃ part, Visits t directory [o] part ∧ part ⊆ seen := by
  induction visits with
  | done => exact absurd ho List.not_mem_nil
  | missing absent later ih =>
      rcases List.mem_cons.mp ho with rfl | ho
      · exact ⟨_, .missing absent .done, by simp⟩
      · obtain ⟨part, way, inside⟩ := ih ho
        exact ⟨part, way, fun x hx => List.mem_cons_of_mem _ (inside hx)⟩
  | fragment read within later _ ih =>
      rcases List.mem_cons.mp ho with rfl | ho
      · exact ⟨_, .fragment read within .done, by simp⟩
      · obtain ⟨part, way, inside⟩ := ih ho
        exact ⟨part, way, fun x hx => List.mem_append_right _ (inside hx)⟩

/-- What is met is written where the way leads, and has no fragment. -/
theorem written (visits : Visits t directory todo seen)
    (h : ∀ o ∈ todo, Written t directory text o) :
    ∀ o ∈ seen, Written t directory text o ∧ ¬ Fragment.Opens t directory o.name := by
  induction visits with
  | done => exact fun _ hx => absurd hx List.not_mem_nil
  | missing absent _ ih =>
      rw [List.forall_mem_cons] at h ⊢
      exact ⟨⟨h.1, absent⟩, ih h.2⟩
  | fragment read _ _ inner outer =>
      rw [List.forall_mem_cons] at h
      rw [List.forall_mem_append]
      exact ⟨inner fun x hx => .fragment h.1 read hx, outer h.2⟩

/-- A way to the end is one that is broken off at its end. -/
theorem begins (visits : Visits t directory todo seen) : Begins t directory todo seen := by
  induction visits with
  | done => exact .stop
  | missing absent _ ih => exact .missing absent ih
  | fragment read inside _ _ ih => exact .fragment read inside ih

/-- Places behind which the way is broken off. -/
theorem append_begins (visits : Visits t directory first seen)
    (begins : Begins t directory second seen') :
    Begins t directory (first ++ second) (seen ++ seen') := by
  induction visits with
  | done => exact begins
  | missing absent _ ih => exact .missing absent ih
  | fragment read inside _ _ ih =>
      rw [List.append_assoc]
      exact .fragment read inside ih

/-- The way through a document leads through every place that is written. -/
theorem exists_of_written
    (visits : Visits t directory (occurrences none (Text.splitLines text)) seen)
    (written : Written t directory text o) :
    ∃ part, Visits t directory [o] part ∧ part ⊆ seen := by
  induction written with
  | document ho => exact visits.exists_of_mem ho
  | fragment _ read ho ih =>
      obtain ⟨part, way, inside⟩ := ih
      cases way with
      | missing absent _ => exact absurd ⟨_, read⟩ absent
      | fragment read' within later =>
          obtain rfl := Except.ok.inj (read.symm.trans read')
          cases later
          obtain ⟨part, way, part_subset⟩ := within.exists_of_mem ho
          rw [List.append_nil] at inside
          exact ⟨part, way, fun x hx => inside (part_subset hx)⟩

/-- **The way through a document meets exactly the places of references without a fragment**, in the
document and in all fragments it leads to. -/
theorem mem_iff (visits : Visits t directory (occurrences none (Text.splitLines text)) seen) :
    o ∈ seen ↔ Written t directory text o ∧ ¬ Fragment.Opens t directory o.name := by
  constructor
  · exact visits.written (fun _ ho => .document ho) o
  · rintro ⟨written, absent⟩
    obtain ⟨part, way, inside⟩ := visits.exists_of_written written
    cases way with
    | missing _ _ => exact inside List.mem_cons_self
    | fragment read _ _ => exact absurd ⟨_, read⟩ absent

end Visits

namespace Begins

/-- What is behind the place at which the way is broken off decides nothing. -/
theorem append (begins : Begins t directory first seen) (second : List Occurrence) :
    Begins t directory (first ++ second) seen := by
  induction begins with
  | stop => exact .stop
  | missing absent _ ih => exact .missing absent ih
  | fragment read inside _ ih => exact .fragment read inside ih
  | within read inside _ => exact .within read inside

/-- What has been met is written where the way leads, and has no fragment. -/
theorem written (begins : Begins t directory todo seen)
    (h : ∀ o ∈ todo, Written t directory text o) :
    ∀ o ∈ seen, Written t directory text o ∧ ¬ Fragment.Opens t directory o.name := by
  induction begins with
  | stop => exact fun _ hx => absurd hx List.not_mem_nil
  | missing absent _ ih =>
      rw [List.forall_mem_cons] at h ⊢
      exact ⟨⟨h.1, absent⟩, ih h.2⟩
  | fragment read inside _ ih =>
      rw [List.forall_mem_cons] at h
      rw [List.forall_mem_append]
      exact ⟨inside.written fun x hx => .fragment h.1 read hx, ih h.2⟩
  | within read _ ih =>
      exact ih fun x hx => .fragment (List.forall_mem_cons.mp h).1 read hx

end Begins

end Visits

end PageAssembly.Expansion
