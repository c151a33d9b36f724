import Mathlib.Data.List.Basic
import Mathlib.Data.Set.Insert
import PageAssembly.Proofs.FileTree.Alteration

/-!
# Entries of a directory that is there

A path with one part more than the path of a directory leads to the entry of that name, unless the
path itself is in the way: too long, or with a character that no file system takes.  What an
operation does there depends on the path and on that entry alone.

## Main definitions

* `FileTree.barrier?` — what is wrong with a path, whatever the tree
* `FileTree.Enters` — a path leads to an entry of a directory that is there

## Main statements

* `FileTree.find_of_find_join_name` — where an entry is found, its directory is found
* `FileTree.Enters.find` — what is found at the path of an entry
* `FileTree.Enters.makeDirectories` — what making a directory there gives
* `FileTree.lookup_of_mem_stations` — a directory's path passes directories
-/

namespace PageAssembly

namespace Path

theorem join_name (p : Path) (name : Text) :
    p.join ⟨.relative, [name]⟩ = ⟨p.anchor, p.parts ++ [name]⟩ := rfl

theorem exists_intercalate_append (parts : List Text) (name : Text) :
    ∃ rest, ['/'].intercalate (parts ++ [name]) = ['/'].intercalate parts ++ rest := by
  induction parts with
  | nil => exact ⟨name, by simp [List.intercalate]⟩
  | cons part parts ih =>
      obtain ⟨rest, h⟩ := ih
      cases parts with
      | nil => exact ⟨'/' :: name, by simp [List.intercalate]⟩
      | cons next parts =>
          refine ⟨rest, ?_⟩
          simp only [List.intercalate, List.cons_append, List.intersperse_cons_cons,
            List.flatten_cons] at h ⊢
          rw [h]
          simp

/-- The spelling of a path goes on behind the spelling of the path before it. -/
theorem exists_text_join_name {p : Path} (name : Text) (h : p ≠ here) :
    ∃ rest, (p.join ⟨.relative, [name]⟩).text = p.text ++ rest := by
  obtain ⟨rest, same⟩ := exists_intercalate_append p.parts name
  have other : p.join ⟨.relative, [name]⟩ ≠ here := fun same =>
    absurd (congrArg Path.parts same) (by simp [join_name, here])
  refine ⟨rest, ?_⟩
  rw [text, if_neg other, text, if_neg h, List.append_assoc, ← same]
  rfl

end Path

namespace FileTree

variable {t t' : FileTree} {p : Path} {l : Location} {e : Option Entry} {name : Text}

/-! ## One part further -/

theorem byteLength_append (s s' : Text) : byteLength (s ++ s') = byteLength s + byteLength s' := by
  induction s with
  | nil => simp [byteLength]
  | cons c s ih =>
      simp only [byteLength, List.cons_append, List.map_cons, List.foldr_cons] at ih ⊢
      omega

/-- The path of a directory is no longer than that of its entry. -/
theorem byteLength_text_lt (h : byteLength (p.join ⟨.relative, [name]⟩).text < pathLimit) :
    byteLength p.text < pathLimit := by
  by_cases here : p = Path.here
  · subst here
    decide
  · obtain ⟨rest, same⟩ := Path.exists_text_join_name name here
    rw [same, byteLength_append] at h
    omega

/-- The path of a directory has no character that its entry's path has not. -/
theorem nul_not_mem_text (h : '\x00' ∉ (p.join ⟨.relative, [name]⟩).text) : '\x00' ∉ p.text := by
  by_cases here : p = Path.here
  · subst here
    decide
  · obtain ⟨rest, same⟩ := Path.exists_text_join_name name here
    exact fun nul => h (same ▸ List.mem_append_left _ nul)

/-- Parts are followed one after the other. -/
theorem walk_append (here : Location) (first second : List Text) :
    t.walk here (first ++ second) = (t.walk here first).bind fun m => t.walk m second := by
  induction first generalizing here with
  | nil => rfl
  | cons part first ih =>
      rw [List.cons_append, walk, walk]
      split
      · split
        · exact ih _
        · split
          · rfl
          · exact ih _
      · rfl
      · rfl

/-- Parts that can be followed can be followed in two steps. -/
theorem exists_walk_of_append {here : Location} {first second : List Text}
    (h : t.walk here (first ++ second) = .ok l) :
    ∃ m, t.walk here first = .ok m ∧ t.walk m second = .ok l := by
  rw [walk_append] at h
  cases before : t.walk here first with
  | error o =>
      rw [before] at h
      cases h
  | ok m =>
      rw [before] at h
      exact ⟨m, rfl, h⟩

/-- What is passed on the way is a directory. -/
theorem lookup_of_walk_cons {part : Text} {parts : List Text} {m : Location}
    (h : t.walk m (part :: parts) = .ok l) : t.lookup m = some .directory := by
  rw [walk] at h
  split at h
  · assumption
  · cases h
  · cases h

theorem locate_eq_ok_iff : t.locate p = .ok l ↔ byteLength p.text < pathLimit ∧
    t.walk (if p.isAbsolute then [] else t.workingDirectory) p.parts = .ok l := by
  rw [locate]
  split
  · next long => simp [Nat.not_lt.mpr long]
  · next short => simp [Nat.not_le.mp short]

/-- **Where an entry is found, its directory is found.** -/
theorem find_of_find_join_name (h : t.find (p.join ⟨.relative, [name]⟩) = .ok (l, e)) :
    t.find p = .ok (p.resolve t.workingDirectory, some .directory) := by
  obtain ⟨clean, located, -⟩ := find_eq_ok_iff.mp h
  obtain ⟨short, leads⟩ := locate_eq_ok_iff.mp located
  obtain ⟨d, before, last⟩ := exists_walk_of_append leads
  have found : t.find p = .ok (d, some .directory) := find_eq_ok_iff.mpr
    ⟨nul_not_mem_text clean, locate_eq_ok_iff.mpr ⟨byteLength_text_lt short, before⟩,
      (lookup_of_walk_cons last).symm⟩
  rwa [(find_eq_ok found).1] at found

/-- Where a file is read, its directory is found. -/
theorem find_of_read_join_name {content : List UInt8}
    (h : t.read (p.join ⟨.relative, [name]⟩) = .ok content) :
    t.find p = .ok (p.resolve t.workingDirectory, some .directory) := by
  obtain ⟨l, found⟩ := read_eq_ok_iff.mp h
  exact find_of_find_join_name found

/-- A directory's path passes directories. -/
theorem lookup_of_mem_stations (h : t.find p = .ok (l, some .directory)) {m : Location}
    (passed : m ∈ p.stations t.workingDirectory) : t.lookup m = some .directory := by
  obtain ⟨parts, ⟨rest, split⟩, rfl⟩ := passed
  obtain ⟨leads, entry⟩ := walk_of_find h
  rw [← split] at leads
  obtain ⟨m, before, behind⟩ := exists_walk_of_append leads
  have here : Path.resolve t.workingDirectory ⟨p.anchor, parts⟩ = m := (walk_eq_ok before).symm
  rw [here]
  cases rest with
  | nil =>
      obtain rfl := Except.ok.inj behind
      exact entry.symm
  | cons part rest => exact lookup_of_walk_cons behind

/-! ## The path of an entry -/

/-- **What is wrong with the path of an entry**, whatever the tree. -/
def barrier? (p : Path) : Option FileFailure :=
  if '\x00' ∈ p.text then some .embeddedNul
  else if pathLimit ≤ byteLength p.text ∨ nameLimit < byteLength p.name then
    some (.reaching .nameTooLong p)
  else none

/-- **The path leads to an entry of a directory that is there**, or to where one could be. -/
def Enters (t : FileTree) (p : Path) : Prop :=
  ∃ directory l name, p = directory.join ⟨.relative, [name]⟩ ∧ name ≠ Path.up ∧
    t.find directory = .ok (l, some .directory)

/-- A directory that is found is found again. -/
theorem Alters.find_directory {touched made : Set Location} (h : Alters touched made t t')
    (found : t.find p = .ok (l, some .directory)) : t'.find p = .ok (l, some .directory) := by
  rw [h.find found, h.directories _ (find_eq_ok found).2.symm]

theorem enters_join_name (found : t.find p = .ok (l, some .directory)) (hn : name ≠ Path.up) :
    t.Enters (p.join ⟨.relative, [name]⟩) := ⟨p, l, name, rfl, hn, found⟩

namespace Enters

/-- The path of an entry stays one while directories stay. -/
theorem of_alters {touched made : Set Location} (enters : t.Enters p)
    (alters : Alters touched made t t') : t'.Enters p := by
  obtain ⟨directory, l, name, rfl, hn, found⟩ := enters
  exact enters_join_name (alters.find_directory found) hn

/-- **What is found at the path of an entry**: what stands at its place, unless the path is
barred. -/
theorem find (enters : t.Enters p) : t.find p = match barrier? p with
    | some f => .error f
    | none => .ok (p.resolve t.workingDirectory, t.lookup (p.resolve t.workingDirectory)) := by
  obtain ⟨directory, l, name, rfl, hn, found⟩ := enters
  obtain ⟨leads, entry⟩ := walk_of_find found
  have named : (directory.join ⟨.relative, [name]⟩).name = name := by
    simp [Path.join_name, Path.name]
  have place : (directory.join ⟨.relative, [name]⟩).resolve t.workingDirectory = l ++ [name] := by
    rw [Path.resolve_join_name directory hn, (find_eq_ok found).1]
  have step : t.walk (if (directory.join ⟨.relative, [name]⟩).isAbsolute then []
      else t.workingDirectory) (directory.join ⟨.relative, [name]⟩).parts =
      if nameLimit < byteLength name then .error .nameTooLong else .ok (l ++ [name]) := by
    have last : t.walk l [name] =
        if nameLimit < byteLength name then .error .nameTooLong else .ok (l ++ [name]) := by
      rw [walk, ← entry]
      simp only [if_neg hn]
      rfl
    rw [Path.join_name, walk_append]
    show ((t.walk (if directory.isAbsolute then [] else _) _).bind _) = _
    rw [leads]
    exact last
  rw [FileTree.find, barrier?, named, place]
  by_cases nul : '\x00' ∈ (directory.join ⟨.relative, [name]⟩).text
  · simp [nul]
  · rw [locate, step]
    by_cases long : pathLimit ≤ byteLength (directory.join ⟨.relative, [name]⟩).text
    · simp [nul, long]
    · by_cases wide : nameLimit < byteLength name
      · simp [nul, long, wide]
      · simp [nul, long, wide]

/-- **What making a directory at the path of an entry gives**: one is there already or can be made,
or nothing is changed. -/
theorem makeDirectories (enters : t.Enters p) :
    t.makeDirectories p = match barrier? p with
      | some f => (t, .error f)
      | none => match t.lookup (p.resolve t.workingDirectory) with
        | none => (t.put (p.resolve t.workingDirectory) .directory, .ok ())
        | some .directory => (t, .ok ())
        | some _ => (t, .error (.reaching .exists p)) := by
  have found := enters.find
  rw [barrier?] at found ⊢
  by_cases nul : '\x00' ∈ p.text
  · simp only [if_pos nul] at found ⊢
    rw [FileTree.makeDirectories, makeDirectory, found]
    rfl
  · simp only [if_neg nul] at found ⊢
    by_cases long : pathLimit ≤ byteLength p.text ∨ nameLimit < byteLength p.name
    · simp only [if_pos long] at found ⊢
      rw [FileTree.makeDirectories, makeDirectory, found]
      simp [acceptDirectory, FileFailure.isSystem, isDirectory, entry?, found, Except.map]
    · simp only [if_neg long] at found ⊢
      rw [FileTree.makeDirectories, makeDirectory, found]
      cases standing : t.lookup (p.resolve t.workingDirectory) with
      | none => rfl
      | some entry =>
          rw [standing] at found
          cases entry <;>
            simp [acceptDirectory, FileFailure.isSystem, isDirectory, entry?, found, Except.map]

/-- A directory that cannot be made leaves the tree as it is, and cannot be made in any other tree
in which the same stands there. -/
theorem makeDirectories_error (enters : t.Enters p) {f : FileFailure}
    (failed : (t.makeDirectories p).2 = .error f) :
    (t.makeDirectories p).1 = t ∧
      ∀ t' : FileTree, t'.Enters p → t'.lookup (p.resolve t'.workingDirectory) =
        t.lookup (p.resolve t.workingDirectory) → t'.makeDirectories p = (t', .error f) := by
  rw [enters.makeDirectories] at failed ⊢
  cases barred : barrier? p with
  | some g =>
      simp only [barred] at failed
      cases failed
      refine ⟨rfl, fun t' enters' _ => ?_⟩
      rw [enters'.makeDirectories, barred]
  | none =>
      simp only [barred] at failed ⊢
      cases standing : t.lookup (p.resolve t.workingDirectory) with
      | none =>
          rw [standing] at failed
          cases failed
      | some entry =>
          rw [standing] at failed
          cases entry with
          | directory => cases failed
          | file content =>
              cases failed
              refine ⟨rfl, fun t' enters' same => ?_⟩
              rw [enters'.makeDirectories, barred, same]
          | dangling =>
              cases failed
              refine ⟨rfl, fun t' enters' same => ?_⟩
              rw [enters'.makeDirectories, barred, same]

/-- A directory that can be made is there, and nothing else is altered. -/
theorem makeDirectories_ok (enters : t.Enters p) (made : (t.makeDirectories p).2 = .ok ()) :
    Alters {p.resolve t.workingDirectory} ∅ t (t.makeDirectories p).1 ∧
      (t.makeDirectories p).1.find p = .ok (p.resolve t.workingDirectory, some .directory) := by
  have found := enters.find
  rw [enters.makeDirectories] at made ⊢
  cases barred : barrier? p with
  | some g =>
      rw [barred] at made
      cases made
  | none =>
      simp only [barred] at made found ⊢
      cases standing : t.lookup (p.resolve t.workingDirectory) with
      | none =>
          have other : t.lookup (p.resolve t.workingDirectory) ≠ some .directory := by
            rw [standing]
            nofun
          have alters : Alters {p.resolve t.workingDirectory} ∅ t
              (t.put (p.resolve t.workingDirectory) .directory) :=
            .put p other (Set.mem_singleton _) _
          refine ⟨alters, ?_⟩
          rw [alters.find found, lookup_put t (ne_nil_of_lookup other), if_pos rfl]
      | some entry =>
          rw [standing] at made found
          cases entry with
          | directory => exact ⟨.refl _ _ t, found⟩
          | file content => cases made
          | dangling => cases made

/-- What is found at the path of an entry is the same while the entry's place looks the same. -/
theorem find_eq {touched made : Set Location} (enters : t.Enters p)
    (alters : Alters touched made t t')
    (same : t'.lookup (p.resolve t.workingDirectory) = t.lookup (p.resolve t.workingDirectory)) :
    t'.find p = t.find p := by
  rw [(enters.of_alters alters).find, enters.find, alters.workingDirectory, same]

end Enters

/-! ## What is no root -/

/-- Where nothing stands is not the root. -/
theorem ne_nil_of_lookup_eq_none (h : t.lookup l = none) : l ≠ [] :=
  ne_nil_of_lookup (by rw [h]; exact (Option.some_ne_none _).symm)

/-- Where a file stands is not the root. -/
theorem ne_nil_of_lookup_eq_file {content : List UInt8} (h : t.lookup l = some (.file content)) :
    l ≠ [] :=
  ne_nil_of_lookup (by rw [h]; simp)

/-! ## What is seen of a path -/

theorem list_of_directory (found : t.find p = .ok (l, some .directory)) :
    t.list p = .ok (t.names l) := by
  rw [list, found]

theorem list_of_find_eq {f : FileFailure} (same : t'.find p = t.find p) (h : t.list p = .error f) :
    t'.list p = .error f := by
  rw [list] at h ⊢
  rw [same]
  split at h
  · exact h
  · cases h
  · exact h
  · exact h

theorem isDirectory_of_find_eq (same : t'.find p = t.find p) :
    t'.isDirectory p = t.isDirectory p := by
  rw [isDirectory, entry?, same]
  rfl

/-- A directory that is there need not be made. -/
theorem makeDirectories_of_directory (found : t.find p = .ok (l, some .directory)) :
    t.makeDirectories p = (t, .ok ()) := by
  rw [makeDirectories, makeDirectory, found]
  simp [acceptDirectory, FileFailure.isSystem, isDirectory, entry?, found, Except.map]

/-- The names in a directory are those of the entries that stand in it. -/
theorem mem_names_iff : name ∈ t.names l ↔ t.lookup (l ++ [name]) ≠ none := by
  constructor
  · intro h
    obtain ⟨⟨k, entry⟩, member, named⟩ := List.mem_filterMap.mp (Text.mem_sort.mp h)
    simp only at named
    split at named
    · next inside =>
        have split : k = l ++ [name] := by
          rw [← inside.2]
          exact (List.dropLast_append_getLast? _ named).symm
        rw [lookup, if_neg (by simp), ← split]
        intro none
        exact absurd (List.lookup_eq_none_iff.mp none _ member) (by simp)
    · cases named
  · intro h
    obtain ⟨entry, standing⟩ := Option.ne_none_iff_exists'.mp h
    exact mem_names_of_lookup standing

/-- The names in a directory are names in the tree. -/
theorem EveryName.of_mem_names {P : Text → Prop} (h : t.EveryName P) (listed : name ∈ t.names l) :
    P name := by
  obtain ⟨entry, standing⟩ := Option.ne_none_iff_exists'.mp (mem_names_iff.mp listed)
  exact h.entries _ (mem_entries_of_lookup (by simp) standing) name (by simp)

/-- What is written to can be found. -/
theorem exists_find_of_write {content : List UInt8} (h : t.write p content = .ok t') :
    ∃ e, t.find p = .ok (p.resolve t.workingDirectory, e) := by
  rw [write] at h
  split at h
  · cases h
  · cases h
  · cases h
  · next l e _ _ found =>
      obtain ⟨rfl, -⟩ := find_eq_ok found
      exact ⟨e, found⟩

/-- A copy reads a file and writes another one. -/
theorem copy_eq_ok {q : Path} (h : t.copy p q = .ok t') : ∃ content,
    t.find p = .ok (p.resolve t.workingDirectory, some (.file content)) ∧
      t.find q = .ok (q.resolve t.workingDirectory, t.lookup (q.resolve t.workingDirectory)) ∧
      p.resolve t.workingDirectory ≠ q.resolve t.workingDirectory ∧
      t.lookup (q.resolve t.workingDirectory) ≠ some .directory ∧
      t' = t.put (q.resolve t.workingDirectory) (.file content) := by
  rw [copy] at h
  split at h
  · cases h
  · cases h
  · next other =>
      cases content : t.read p with
      | error f =>
          rw [content] at h
          cases h
      | ok bytes =>
          rw [content] at h
          obtain ⟨l, source⟩ := read_eq_ok_iff.mp content
          obtain ⟨rfl, -⟩ := find_eq_ok source
          obtain ⟨notDirectory, rfl⟩ := write_eq_ok h
          obtain ⟨_, target⟩ := exists_find_of_write h
          obtain ⟨-, rfl⟩ := find_eq_ok target
          refine ⟨bytes, source, target, fun same => ?_, notDirectory, rfl⟩
          rw [sameEntry, source, target, ← same] at other
          have standing := (find_eq_ok source).2
          rw [← standing] at other
          simp at other

/-- A file is copied over another one. -/
theorem copy_of_files {q : Path} {m : Location} {content old : List UInt8}
    (source : t.find p = .ok (l, some (.file content)))
    (target : t.find q = .ok (m, some (.file old))) (apart : l ≠ m) :
    t.copy p q = .ok (t.put m (.file content)) := by
  have other : t.sameEntry p q = .ok false := by
    rw [sameEntry, source, target]
    simp [apart]
  rw [copy, other, read, source]
  simp only [Except.bind, write, target]

/-- A copy fails alike where the same is found at both paths. -/
theorem copy_of_find_eq {q : Path} {f : FileFailure} (source : t'.find p = t.find p)
    (target : t'.find q = t.find q) (h : t.copy p q = .error f) : t'.copy p q = .error f := by
  have same : t'.sameEntry p q = t.sameEntry p q := by rw [sameEntry, sameEntry, source, target]
  have read : t'.read p = t.read p := by rw [FileTree.read, FileTree.read, source]
  rw [copy, same, read]
  rw [copy] at h
  split at h
  · exact h
  · exact h
  · cases content : t.read p with
    | error g =>
        rw [content] at h
        exact h
    | ok bytes =>
        rw [content] at h
        simp only [Except.bind, write, target] at h ⊢
        split at h
        · exact h
        · exact h
        · exact h
        · cases h

end FileTree

end PageAssembly
