import PageAssembly.Proofs.Assets.Course

/-!
# Copying a directory

A directory is copied entry by entry.  Everything that can be copied is copied, everything else is
reported, and nothing else is touched, unless an entry's path is longer than any path may be.

## Main definitions

* `Assets.opening` — listing the directory and making the one it is copied to
* `Assets.Scene.listing` — a scene in which only some entries of the source are seen

## Main statements

* `Assets.copyDirectory_copies` — what copying a directory gives, reports and leaves
* `Assets.copyDirectory_stops_at_long_path` — an entry that cannot be asked for

### The directory is listed first

The names in the directory are those that were there before its target was made.  A target with `..`
among its parts can make directories in the source on its way.  They are not seen among the entries
of the source itself, but they are seen further down.
-/

namespace PageAssembly.Assets

open FileTree Job

/-- **Listing the directory and making the one it is copied to**: the names and the tree behind, or
what is in the way. -/
def opening (t : FileTree) (source target : Path) : FileTree × Except FileFailure (List Text) :=
  match t.list source with
  | .error f => (t, .error f)
  | .ok names =>
    match t.makeDirectories target with
    | (t₁, .error f) => (t₁, .error f)
    | (t₁, .ok ()) => (t₁, .ok names)

/-- The scene in which only the entries of the given names are seen in the source. -/
def Scene.listing (S : Scene) (names : List Text) : Scene where
  source := S.source
  target := S.target
  there
    | [] => S.there []
    | name :: r => if name ∈ names then S.there (name :: r) else none
  here := S.here

variable {t t₁ : FileTree} {source target : Path} {names : List Text}

/-- A directory is opened, or what is in the way is reported; a path that no file system takes ends
the job. -/
theorem openDirectory_run (t : FileTree) (source target : Path) (notices : Notices) :
    (openDirectory source target).runOn ⟨t, notices⟩ = match opening t source target with
      | (t₁, .ok names) => (.ok (some names), ⟨t₁, notices⟩)
      | (t₁, .error f) =>
        if f.isSystem then (.ok none, ⟨t₁, notices.push (.notCopied source target f)⟩)
        else (.error (.files f), ⟨t₁, notices⟩) := by
  have look : Job.tree.runOn ⟨t, notices⟩ = (.ok t, ⟨t, notices⟩) := rfl
  rw [openDirectory, opening, runOn_bind, look]
  cases listed : t.list source with
  | error f => cases system : f.isSystem <;> simp only [listed, system] <;> rfl
  | ok names =>
      simp only [listed, runOn_bind, look]
      rcases made : t.makeDirectories target with ⟨t₁, f | ⟨⟨⟩⟩⟩
      · cases system : f.isSystem <;> simp only [system] <;> rfl
      · rfl

/-- **What an opened directory is.** -/
structure Opened (t t₁ : FileTree) (source target : Path) (names : List Text) : Prop where
  /-- The source is there. -/
  foundSource : t.find source = .ok (source.resolve t.workingDirectory, some .directory)
  /-- The names are those in the source. -/
  listed : names = t.names (source.resolve t.workingDirectory)
  /-- The target is there. -/
  foundTarget : t₁.find target = .ok (target.resolve t.workingDirectory, some .directory)
  /-- Directories were made on the way to the target. -/
  alters : Alters ∅ (target.stations t.workingDirectory) t t₁
  /-- Every location stands once. -/
  distinct : t.Distinct → t₁.Distinct

theorem opened_of_opening (h : opening t source target = (t₁, .ok names)) :
    Opened t t₁ source target names := by
  rw [opening] at h
  cases listed : t.list source with
  | error f =>
      rw [listed] at h
      cases h
  | ok listing =>
      rw [listed] at h
      obtain ⟨l, found, rfl⟩ := list_eq_ok listed
      obtain ⟨rfl, -⟩ := find_eq_ok found
      rcases made : t.makeDirectories target with ⟨t', f | ⟨⟨⟩⟩⟩
      · rw [made] at h
        cases h
      · rw [made] at h
        obtain ⟨rfl, same⟩ := Prod.mk.inj h
        have there := find_makeDirectories (t := t) (p := target) (by rw [made])
        have alters : Alters ∅ (target.stations t.workingDirectory) t
            (t.makeDirectories target).1 := makeDirectories_alters t target Set.Subset.rfl
        have distinct (before : t.Distinct) := before.makeDirectories target
        rw [made] at there alters distinct
        exact ⟨found, (Except.ok.inj same).symm, there, alters, distinct⟩

namespace Opened

variable {name : Text}

/-- The source of an opened directory is there when its target was made. -/
theorem foundSource' (opened : Opened t t₁ source target names) :
    t₁.find source = .ok (source.resolve t.workingDirectory, some .directory) :=
  opened.alters.find_directory opened.foundSource

/-- The entries of the source are those of the names that were listed. -/
theorem mem_iff (opened : Opened t t₁ source target names) (name : Text) :
    name ∈ names ↔ ((Scene.of t₁ source target).listing names).there [name] ≠ none := by
  show _ ↔ (if name ∈ names then t₁.lookup (_ ++ [name]) else none) ≠ none
  split
  · next member =>
      refine ⟨fun _ => ?_, fun _ => member⟩
      rw [opened.listed, mem_names_iff] at member
      obtain ⟨e, standing⟩ := Option.ne_none_iff_exists'.mp member
      rw [opened.alters.workingDirectory,
        opened.alters.lookup_of_some (Set.notMem_empty _) standing]
      nofun
  · next other => exact ⟨fun member => absurd member other, fun h => absurd rfl h⟩

/-- The scene of an entry that was listed. -/
theorem below_listing (S : Scene) (h : name ∈ names) :
    (S.listing names).below name = S.below name := by
  ext1
  · rfl
  · rfl
  · funext r
    exact if_pos h
  · rfl

/-- The source is a directory, and nothing is in its way. -/
theorem accepts (opened : Opened t t₁ source target names) :
    ((Scene.of t₁ source target).listing names).there [] = some .directory ∧
      ((Scene.of t₁ source target).listing names).refusal? = none := by
  have there : ((Scene.of t₁ source target).listing names).there [] = some .directory := by
    show (Scene.of t₁ source target).there [] = _
    rw [Scene.of_there, opened.alters.workingDirectory, ← (find_eq_ok opened.foundSource').2]
  have here : ((Scene.of t₁ source target).listing names).here [] = some .directory := by
    show (Scene.of t₁ source target).here [] = _
    rw [Scene.of_here, opened.alters.workingDirectory, ← (find_eq_ok opened.foundTarget).2]
  have clear : barrier? ((Scene.of t₁ source target).listing names).target = none :=
    barrier?_of_find opened.foundTarget
  refine ⟨there, ?_⟩
  rw [Scene.refusal?, there, here, clear]
  rfl

/-- **The entries of an opened directory are copied**, and what is done with them is what copying
the directory comes to. -/
theorem names_tell (opened : Opened t t₁ source target names) (lawful : t.Lawful)
    (apart : Apart (source.resolve t.workingDirectory) (target.resolve t.workingDirectory))
    {levels : Nat} (deep : pathLimit ≤ levels + 1) :
    let S := (Scene.of t₁ source target).listing names
    (names.mapM (copyBelow levels source target)).Tells t₁ (fun copied told t' => ∃ visited,
      Copied S (target.resolve t.workingDirectory) t₁ S.Attempts visited copied.flatten told t')
      (Barred S S.Attempts) := by
  intro S
  obtain ⟨directory, accepted⟩ := opened.accepts
  have foundSource := opened.foundSource'
  have proper (name : Text) (h : name ∈ names) : name ≠ Path.up :=
    lawful.plain.of_mem_names (opened.listed ▸ h)
  have entries := copyNames_tells (S := S) levels foundSource opened.foundTarget apart
    proper (by rw [opened.listed]; exact lawful.distinct.pairwise_names _)
    (fun name member => below_listing _ member) ?_
  · refine entries.mono ?_ fun failure barred => barred.opened directory accepted opened.mem_iff
    rintro copied told t' ⟨visited, inside⟩
    exact ⟨_, inside.opened directory accepted opened.mem_iff
      (barrier?_of_find opened.foundSource) opened.foundTarget (.refl _ _ _) (fun _ _ => rfl) id⟩
  · intro name member t' between kept same
    have source' := between.find_directory foundSource
    have target' := between.find_directory opened.foundTarget
    refine copiesBelow_of_directory source' target' apart (proper name member) ?_ ?_
    · have standing := (opened.mem_iff name).mp member
      rw [same, ← opened.alters.workingDirectory]
      exact fun none => standing ((if_pos member).trans none)
    · intro S' scene directory' clear clean
      have found := find_of_there source' (proper name member) scene directory' clear
      have place := resolve_entry target' (proper name member)
      have named : name ≠ [] := lawful.named.of_mem_names (opened.listed ▸ member)
      have nested := copyLevels_tells levels (between.plain (opened.alters.plain lawful.plain))
        (kept (opened.distinct lawful.distinct)) found
        (enters_join_name target' (proper name member))
        (by rw [scene] at clean; exact clean) (by rw [place]; exact apart.append _ _)
        (by simp [Path.join_name])
        (by have := byteLength_join_name_pos (p := source) named; omega)
      rw [place, ← scene] at nested
      rw [scene] at nested ⊢
      exact nested

end Opened

/-! ## The whole directory -/

/-- What copying a directory does that cannot be opened. -/
theorem copyDirectory_run_refused {f : FileFailure} (notices : Notices)
    (refused : opening t source target = (t₁, .error f)) :
    (copyDirectory source target).runOn ⟨t, notices⟩ =
      if f.isSystem then (.ok [], ⟨t₁, notices.push (.notCopied source target f)⟩)
      else (.error (.files f), ⟨t₁, notices⟩) := by
  show (copyLevels (4095 + 1) source target).runOn _ = _
  rw [copyLevels_succ, runOn_bind, openDirectory_run, refused]
  cases system : f.isSystem <;> simp only [system] <;> rfl

/-- What copying a directory does that was opened. -/
theorem copyDirectory_run_opened (notices : Notices)
    (opened : opening t source target = (t₁, .ok names)) :
    (copyDirectory source target).runOn ⟨t, notices⟩ =
      (names.mapM (copyBelow 4095 source target) >>= fun copied =>
        pure copied.flatten : Job (List Path)).runOn ⟨t₁, notices⟩ := by
  show (copyLevels (4095 + 1) source target).runOn _ = _
  rw [copyLevels_succ, runOn_bind, openDirectory_run, opened]
  rfl

/-- **What copying a directory gives, reports and leaves.**  A directory that cannot be listed, or
whose target cannot be made, is reported and left.  Otherwise the copy gives a result exactly when
nothing is wrong with the paths of the entries that are looked at.  These are all entries below
directories that could be listed and made, each in its turn.  Every one of them is copied or
reported, whatever becomes of the others, and nothing else is changed. -/
theorem copyDirectory_copies (lawful : t.Lawful)
    (apart : Apart (source.resolve t.workingDirectory) (target.resolve t.workingDirectory))
    (notices : Notices) :
    let run := (copyDirectory source target).runOn ⟨t, notices⟩
    match opening t source target with
    | (t₁, .error f) =>
      run = if f.isSystem then (.ok [], ⟨t₁, notices.push (.notCopied source target f)⟩)
        else (.error (.files f), ⟨t₁, notices⟩)
    | (t₁, .ok names) =>
      let S := (Scene.of t₁ source target).listing names
      Alters ∅ (target.stations t.workingDirectory) t t₁ ∧
      ((∃ copied, run.1 = .ok copied) ↔ ∀ r, S.Attempts r → barrier? (S.along r).source = none) ∧
      (∀ failure, run.1 = .error failure → Barred S S.Attempts failure) ∧
      ∀ copied, run.1 = .ok copied → ∃ visited told, run.2.notices = notices ++ told.toArray ∧
        Copied S (target.resolve t.workingDirectory) t₁ S.Attempts visited copied told
          run.2.tree ∧
        ∀ p ∈ copied, ∃ r content, p = target.join ⟨.relative, r⟩ ∧
          S.there r = some (.file content) ∧ run.2.tree.read p = .ok content := by
  intro run
  rcases way : opening t source target with ⟨t₁, f | names⟩
  · exact copyDirectory_run_refused notices way
  · have opened := opened_of_opening way
    refine ⟨opened.alters, ?_⟩
    have begun : run = _ := copyDirectory_run_opened notices way
    let S := (Scene.of t₁ source target).listing names
    have tells : (names.mapM (copyBelow 4095 source target) >>= fun copied =>
        pure copied.flatten : Job (List Path)).Tells t₁ (fun copied told t' => ∃ visited,
          Copied S (target.resolve t.workingDirectory) t₁ S.Attempts visited copied told t')
          (Barred S S.Attempts) := by
      refine .bind (opened.names_tell lawful apart (by decide)) ?_
      rintro copied told t' ⟨visited, done⟩
      refine .pure ⟨visited, ?_⟩
      rwa [List.append_nil]
    have ends := tells notices
    rw [← begun] at ends
    rcases run with ⟨failure | copied, s⟩
    · obtain ⟨r, f, attempts, wrong, -⟩ := id ends
      refine ⟨⟨nofun, fun clear => ?_⟩, ?_, nofun⟩
      · cases wrong.symm.trans (clear r attempts)
      · rintro _ ⟨⟩
        exact ends
    · obtain ⟨told, notices', visited, done⟩ := ends
      refine ⟨⟨fun _ r attempts => ?_, fun _ => ⟨copied, rfl⟩⟩, nofun, ?_⟩
      · exact done.reachable r ((done.visits r).mpr attempts)
      · rintro _ ⟨⟩
        refine ⟨visited, told, notices', done, fun p written => ?_⟩
        obtain ⟨r, content, -, path, file, read⟩ := done.read written
        exact ⟨r, content, path, file, read⟩

/-! ### A directory with a file, another directory and an entry that leads nowhere -/

/-- A tree with a directory to be copied and a file where one of its files is copied to. -/
def gallery : FileTree where
  entries := [(["img".toList], .directory), (["img".toList, "b".toList], .file [98]),
    (["img".toList, "a".toList], .directory), (["img".toList, "a".toList, "c".toList], .file [99]),
    (["img".toList, "z".toList], .dangling), (["out".toList], .directory),
    (["out".toList, "b".toList], .file [0])]

/-- The path of the directory. -/
def galleryPath : Path := Path.ofText "img".toList

/-- The path that it is copied to. -/
def copyPath : Path := Path.ofText "out".toList

theorem gallery_lawful : gallery.Lawful where
  distinct := by unfold Distinct; decide
  plain := ⟨by decide, by decide⟩
  named := ⟨by decide, by decide⟩

/-- The two files are copied, and the entry that leads nowhere is reported. -/
theorem copyDirectory_copies_example :
    let run := (copyDirectory galleryPath copyPath).runOn ⟨gallery, #[]⟩
    let S := (Scene.of gallery galleryPath copyPath).listing ["a".toList, "b".toList, "z".toList]
    gallery.Lawful ∧
      Apart (galleryPath.resolve gallery.workingDirectory)
        (copyPath.resolve gallery.workingDirectory) ∧
      ∃ visited told, run.2.notices = #[] ++ told.toArray ∧
        Copied S ["out".toList] gallery S.Attempts visited
          [Path.ofText "out/a/c".toList, Path.ofText "out/b".toList] told run.2.tree ∧
        ∀ p ∈ [Path.ofText "out/a/c".toList, Path.ofText "out/b".toList], ∃ r content,
          p = copyPath.join ⟨.relative, r⟩ ∧ S.there r = some (.file content) ∧
            run.2.tree.read p = .ok content := by
  have apart : Apart (galleryPath.resolve gallery.workingDirectory)
      (copyPath.resolve gallery.workingDirectory) := ⟨by decide, by decide⟩
  have opened : opening gallery galleryPath copyPath =
      (gallery, .ok ["a".toList, "b".toList, "z".toList]) := by cbv
  have copies := copyDirectory_copies gallery_lawful apart #[]
  rw [opened] at copies
  exact ⟨gallery_lawful, apart, copies.2.2.2 _ (by cbv)⟩

/-! ### A directory with a long path -/

/-- A tree with a file of a long name and one of a short name. -/
def shelf : FileTree where
  entries := [(["a".toList], .directory), (["a".toList, "long".toList], .file [1]),
    (["a".toList, "s".toList], .file [2]), (["out".toList], .directory)]

/-- A path of 4091 bytes to the directory of the files. -/
def windingPath : Path :=
  ⟨.relative, (List.replicate 818 ["a".toList, Path.up]).flatten ++ ["a".toList]⟩

/-- With a name of four bytes behind it the path is too long to be asked for, and the whole copy
ends; with a name of one byte it leads to a file. -/
theorem copyDirectory_stops_at_long_path :
    ((copyDirectory windingPath copyPath).runOn ⟨shelf, #[]⟩).1 = .error (.files
        (.reaching .nameTooLong (windingPath.join ⟨.relative, ["long".toList]⟩))) ∧
      shelf.read (windingPath.join ⟨.relative, ["s".toList]⟩) = .ok [2] := by
  have source : shelf.find windingPath = .ok (["a".toList], some .directory) := by decide +kernel
  have target : shelf.find copyPath = .ok (["out".toList], some .directory) := rfl
  have names : shelf.names ["a".toList] = ["long".toList, "s".toList] := by cbv
  have opened : opening shelf windingPath copyPath =
      (shelf, .ok ["long".toList, "s".toList]) := by
    rw [opening, list_of_directory source, names, makeDirectories_of_directory target]
  refine ⟨?_, by decide +kernel⟩
  rw [copyDirectory_run_opened _ opened]
  decide +kernel

end PageAssembly.Assets
