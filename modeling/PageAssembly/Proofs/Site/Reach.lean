import PageAssembly.Proofs.Site.Index

/-!
# Where compiling writes

Compiling a site writes at and below the output directory, and at the place that the root document's
path means when it is seen from there.

## Main definitions

* `Site.Named` — settings whose root document is named by a path that only leads down

## Main statements

* `Site.compile_leaves` — what a run may alter, however it ends
* `Site.target_mem_subtree` — a root document that is named so is written below the output directory
* `Site.compile_writes` — what lies elsewhere stays, and when it does not

### One place from two directories

The root document's path is seen from the source directory when it is read and from the output
directory when it is written.  A path that climbs, or that starts at the root, leads out of both.
Nothing compares the second place with the output directory.
-/

namespace PageAssembly.Site

open FileTree (Alters)
open Assets (subtree)

/-- **The root document's path only leads down**, by one part at least. -/
structure Named (s : Settings) : Prop where
  /-- The path is seen from a directory. -/
  relative : (Path.ofText s.indexFile).isAbsolute = false
  /-- The path has a part. -/
  parts : (Path.ofText s.indexFile).parts ≠ []
  /-- The path does not climb. -/
  down : Path.up ∉ (Path.ofText s.indexFile).parts

/-- The places that a run may alter in any way: the output directory with all below it, the root
document's target and the temporary file beside it. -/
def reached (s : Settings) (workingDirectory : Location) : Set Location :=
  subtree (s.outputDir.resolve workingDirectory) ∪
    {s.targetPath.resolve workingDirectory,
      Publication.temporaryPlace s.targetPath workingDirectory}

/-- The places where a run may make a directory: those on the way to the output directory and to the
target, as the two are written, and those below the output directory. -/
def passed (s : Settings) (workingDirectory : Location) : Set Location :=
  s.outputDir.stations workingDirectory ∪ s.targetPath.parent.stations workingDirectory ∪
    subtree (s.outputDir.resolve workingDirectory)

variable {t : FileTree} {s : Settings}

/-- What an asset is copied to lies below the output directory. -/
theorem mem_subtree_of_selects {workingDirectory : Location} {name : Text} {l : Location}
    (selects : Assets.Selects s workingDirectory name l) :
    l ∈ subtree (s.outputDir.resolve workingDirectory) :=
  (List.prefix_append _ _).trans (Assets.mem_subtree_of_selects selects)

/-- **What a run alters**, however it ends. -/
theorem compile_leaves (plain : t.Plain) (s : Settings) :
    (compile s).Leaves t
      (Alters (reached s t.workingDirectory) (passed s t.workingDirectory) t) := by
  have way : s.targetPath.parent.stations t.workingDirectory ⊆ passed s t.workingDirectory :=
    fun l h => .inl (.inr h)
  have publishing (markup : Text) :
      (Publication.publish { chunks := [markup] } s.targetPath).Leaves t
        (Alters (reached s t.workingDirectory) (passed s t.workingDirectory) t) := by
    refine (Publication.publish_ends _ _ t).mono (fun _ t' ⟨_, published⟩ => ?_) fun _ t' left => ?_
    · exact published.alters.mono (fun l h => .inr h) way
    · exact left.alters.mono (fun l h => .inr (.inr h)) way
  rw [compile]
  refine .note_bind _ (.bind (P := fun _ t' => t = t')
    (.reading (fun _ _ _ => rfl) fun _ _ _ => .refl _ _ t) ?_)
  rintro markup _ rfl
  refine .bind (publishing markup) fun written t₁ before => .note_bind _ ?_
  refine .bind (Assets.copyAll_leaves plain before ?_ ?_) fun copied t₂ after =>
    .note_bind _ (.note_bind _ (.pure after))
  · exact fun name _ l selects => .inl (mem_subtree_of_selects selects)
  · exact Set.union_subset (fun l h => .inl (.inl h)) fun l h => .inr h

/-! ## Root documents that only lead down -/

section Named

variable (named : Named s) (workingDirectory : Location)

include named

/-- The target lies below the output directory. -/
theorem target_mem_subtree :
    s.targetPath.resolve workingDirectory ∈ subtree (s.outputDir.resolve workingDirectory) := by
  show _ <+: (s.outputDir.child s.indexFile).resolve workingDirectory
  rw [Path.child, Path.resolve_join named.relative, Path.foldl_follow_of_up_not_mem named.down]
  exact List.prefix_append _ _

/-- The directory of the target is the output directory, or one to which a path leads down. -/
theorem parent_targetPath : s.targetPath.parent =
    s.outputDir.join ⟨.relative, (Path.ofText s.indexFile).parts.dropLast⟩ := by
  have parts : s.targetPath.parts = s.outputDir.parts ++ (Path.ofText s.indexFile).parts :=
    Path.parts_join named.relative
  have anchor : s.targetPath.anchor = s.outputDir.anchor := by
    rw [Settings.targetPath, Path.child, Path.join, if_neg]
    rw [named.relative]
    exact Bool.false_ne_true
  rw [Path.parent, parts, anchor, List.dropLast_append_of_ne_nil named.parts]
  rfl

/-- The temporary file's place lies below the output directory. -/
theorem temporary_mem_subtree : Publication.temporaryPlace s.targetPath workingDirectory ∈
    subtree (s.outputDir.resolve workingDirectory) := by
  have down : Path.up ∉ (Path.ofText s.indexFile).parts.dropLast :=
    fun h => named.down (List.dropLast_subset _ h)
  show _ <+: s.targetPath.parent.resolve workingDirectory ++ _
  rw [parent_targetPath named, Path.resolve_join rfl, Path.foldl_follow_of_up_not_mem down,
    List.append_assoc]
  exact List.prefix_append _ _

/-- Nothing is altered outside the output directory. -/
theorem reached_subset :
    reached s workingDirectory ⊆ subtree (s.outputDir.resolve workingDirectory) := by
  rintro l (below | rfl | rfl)
  · exact below
  · exact target_mem_subtree named workingDirectory
  · exact temporary_mem_subtree named workingDirectory

/-- A directory that is made lies on the way to the output directory, or below it. -/
theorem passed_subset : passed s workingDirectory ⊆ s.outputDir.stations workingDirectory ∪
    subtree (s.outputDir.resolve workingDirectory) := by
  rintro l ((way | way) | below)
  · exact .inl way
  · obtain ⟨parts, before, rfl⟩ := way
    rw [parent_targetPath named] at before ⊢
    rcases List.prefix_or_prefix_of_prefix before (List.prefix_append _ _) with inside | ⟨rest, rfl⟩
    · exact .inl ⟨parts, inside, rfl⟩
    · have before := (List.prefix_append_right_inj _).mp before
      have down : Path.up ∉ rest := fun h =>
        named.down (List.dropLast_subset _ (before.subset h))
      refine .inr ?_
      show _ <+: (s.outputDir.join ⟨.relative, rest⟩).resolve workingDirectory
      rw [Path.resolve_join rfl, Path.foldl_follow_of_up_not_mem down]
      exact List.prefix_append _ _
  · exact .inr below

end Named

/-! ## What lies elsewhere -/

/-- A root document that is written elsewhere is not written over by an asset. -/
theorem spares_of_not_mem {workingDirectory : Location}
    (elsewhere : s.targetPath.resolve workingDirectory ∉
      subtree (s.outputDir.resolve workingDirectory)) : Spares s workingDirectory :=
  fun _ _ selects => elsewhere (mem_subtree_of_selects selects)

/-- **Compiling writes in the output directory when the root document's path only leads down.**  On
every plain tree and for all settings, a run alters nothing, however it ends, but what lies at or
below the output directory, the root document's target and the temporary file beside it, and
directories that are made on the way there.  When the path only leads down, everything outside the
output directory stays as it was but for directories made on the way to it; no file there is changed
or taken away.  When the target lies outside, every run that ends with a result has written the
compiled root document there. -/
theorem compile_writes (s : Settings) (before : Session) (plain : before.tree.Plain) :
    let start := before.tree.workingDirectory
    let after := ((compile s).runOn before).2.tree
    Alters (reached s start) (passed s start) before.tree after ∧
      (Named s → ∀ l, ¬ s.outputDir.resolve start <+: l →
        (∀ e, before.tree.lookup l = some e → after.lookup l = some e) ∧
        (after.lookup l = before.tree.lookup l ∨
          (l ∈ s.outputDir.stations start ∧ before.tree.lookup l = none ∧
            after.lookup l = some .directory))) ∧
      (¬ s.outputDir.resolve start <+: s.targetPath.resolve start →
        ∀ path, ((compile s).runOn before).1 = .ok path →
          ∃ compiled, Compiled before.tree s compiled ∧
            after.lookup (s.targetPath.resolve start) = some (.file (Utf8.encode compiled))) := by
  intro start after
  have alters : Alters (reached s start) (passed s start) before.tree after :=
    (compile_leaves plain s).tree before.notices
  refine ⟨alters, fun named l outside => ?_, fun elsewhere path run => ?_⟩
  · have confined : Alters (subtree (s.outputDir.resolve start)) (s.outputDir.stations start)
        before.tree after :=
      (alters.mono (reached_subset named start) (passed_subset named start)).of_made_subset
        Set.Subset.rfl
    exact ⟨fun e stands => confined.lookup_of_some outside stands, confined.elsewhere l outside⟩
  · obtain ⟨rfl, compiled, compiles, content⟩ :=
      (compile_ends plain (spares_of_not_mem elsewhere)).of_ok run
    obtain ⟨l, found⟩ := FileTree.read_eq_ok_iff.mp content
    obtain ⟨rfl, entry⟩ := FileTree.find_eq_ok found
    refine ⟨compiled, compiles, ?_⟩
    rw [← show after.workingDirectory = start from alters.workingDirectory]
    exact entry.symm

/-! ### A root document beside the source directory -/

/-- A site whose root document stands beside the source directory. -/
def besideTree : FileTree where
  entries := [(["site".toList], .directory),
    (["site".toList, "index.html".toList], .file (Utf8.encode "<app-p/>\n".toList)),
    (["site".toList, "src".toList], .directory),
    (["site".toList, "src".toList, "components".toList], .directory),
    (["site".toList, "src".toList, "components".toList, "p.html".toList],
      .file (Utf8.encode "P\n".toList))]

/-- Its settings: the output directory stands beside the source directory too. -/
def besideSettings : Settings :=
  .make (some (Path.ofText "site/src".toList)) (some (Path.ofText "site/out".toList)) none
    (some "../index.html".toList) none none

/-- What is reported before its root document is expanded. -/
def besideNotices : Notices :=
  #[.compiling (Path.ofText "site/src".toList), .references ['p'] []]

theorem assemble_beside :
    (assemble besideTree besideSettings).run.run
      #[.compiling (Path.ofText "site/src".toList)] = (.ok "P\n\n".toList, besideNotices) := by
  have index : (readIndex besideTree besideSettings.indexPath).run.run
      #[.compiling (Path.ofText "site/src".toList)] =
        (.ok "<app-p/>\n".toList, #[.compiling (Path.ofText "site/src".toList)]) :=
    Prod.ext (by decide +kernel) (by decide +kernel)
  have found : (Dependencies.survey besideTree besideSettings.componentsPath).run.run
      #[.compiling (Path.ofText "site/src".toList)] = (.ok ⟨[(['p'], [])]⟩, besideNotices) :=
    Prod.ext (by decide +kernel) (by decide +kernel)
  rw [assemble_run_of_acyclic index found cyclic_example]
  exact Prod.ext (by decide +kernel) (by decide +kernel)

theorem compile_beside :
    ((compile besideSettings).runOn ⟨besideTree, #[]⟩).1 = .ok besideSettings.targetPath ∧
      ((compile besideSettings).runOn ⟨besideTree, #[]⟩).2.tree.lookup
        ["site".toList, "index.html".toList] = some (.file (Utf8.encode "P\n".toList)) := by
  rw [compile_run_of_assembled #[] assemble_beside]
  constructor <;> decide +kernel

/-- The run has written the compiled root document outside the output directory. -/
theorem compile_writes_beside : besideTree.Plain ∧
    ∃ compiled, Compiled besideTree besideSettings compiled ∧
      ((compile besideSettings).runOn ⟨besideTree, #[]⟩).2.tree.lookup
        (besideSettings.targetPath.resolve []) = some (.file (Utf8.encode compiled)) := by
  have plain : besideTree.Plain := ⟨by decide, by decide⟩
  obtain ⟨-, -, elsewhere⟩ := compile_writes besideSettings ⟨besideTree, #[]⟩ plain
  exact ⟨plain, elsewhere (by decide) _ compile_beside.1⟩

/-- The root document that was read, and that the output directory does not contain, is written
over. -/
theorem compile_overwrites_root_document :
    ∃ path, ((compile besideSettings).runOn ⟨besideTree, #[]⟩).1 = .ok path ∧
      ¬ besideSettings.outputDir.resolve [] <+: besideSettings.indexPath.resolve [] ∧
      besideTree.lookup (besideSettings.indexPath.resolve []) =
        some (.file (Utf8.encode "<app-p/>\n".toList)) ∧
      ((compile besideSettings).runOn ⟨besideTree, #[]⟩).2.tree.lookup
        (besideSettings.indexPath.resolve []) = some (.file (Utf8.encode "P\n".toList)) := by
  have place : besideSettings.indexPath.resolve [] = ["site".toList, "index.html".toList] :=
    rfl
  rw [place]
  exact ⟨_, compile_beside.1, by decide, rfl, compile_beside.2⟩

end PageAssembly.Site
