import Mathlib
import PageAssembly.Proofs.Assets.Settled
import PageAssembly.Proofs.Expansion.Unchanged
import PageAssembly.Proofs.Publication.Settled
import PageAssembly.Proofs.Site.Reach
import PageAssembly.Proofs.Site.Stages
import PageAssembly.Proofs.Survey.Unchanged

/-!
# Compiling a site again

A site in the default layout is compiled into a directory that lies inside its source directory.
Compiling it a second time changes nothing.

## Main definitions

* `Site.DefaultLayout` — settings with the default names
* `Site.LocalReferences` — no reference leads out of the component directory

## Main statements

* `Site.assemble_again` — the same markup is assembled while what is read stays the same
* `Site.compile_settles` — a run leaves nothing for another run to do
* `Site.compile_again` — the second run gives the same path and the same tree

### What the first run leaves alone

Everything that a run touches lies at or below the output directory: the directories on the way
there are there already, since the root document was read through them.  The root document, the
component directory and whatever is copied lie beside the output directory, which is left out by
name, so the second run reads what the first one read.  What it writes is there already, and what
could not be copied is in the way as it was.
-/

namespace PageAssembly.Site

open FileTree (Alters Keeps Unaltered)
open Assets (subtree)
open Job

variable {t t' : FileTree} {s : Settings}

/-! ## The default layout -/

/-- **The output directory, the component directory and the root document have their default
names.** -/
structure DefaultLayout (s : Settings) : Prop where
  /-- The output directory is in the source directory. -/
  output : s.outputDir = Settings.outputOf s.sourceDir
  /-- So is the component directory. -/
  components : s.componentsDir = Settings.defaultComponentsDir
  /-- And the root document. -/
  index : s.indexFile = Settings.defaultIndexFile

/-- Settings that are given a source directory and what is to be copied have the default layout. -/
theorem defaultLayout_make (sourceDir : Option Path) (suffixes keywords : Option (List Text)) :
    DefaultLayout (.make sourceDir none none none suffixes keywords) := ⟨rfl, rfl, rfl⟩

namespace DefaultLayout

variable (layout : DefaultLayout s)

include layout

theorem outputDir_eq : s.outputDir = s.sourceDir.join ⟨.relative, [Settings.defaultOutputDir]⟩ := by
  rw [layout.output, Settings.outputOf, Path.child_of_slash_not_mem (by decide) (by decide)]

theorem componentsPath_eq :
    s.componentsPath = s.sourceDir.join ⟨.relative, [Settings.defaultComponentsDir]⟩ := by
  rw [Settings.componentsPath, layout.components,
    Path.child_of_slash_not_mem (by decide) (by decide)]

theorem ofText_indexFile : Path.ofText s.indexFile = ⟨.relative, [Settings.defaultIndexFile]⟩ := by
  rw [layout.index, Path.ofText_of_slash_not_mem (by decide) (by decide)]

theorem indexPath_eq :
    s.indexPath = s.sourceDir.join ⟨.relative, [Settings.defaultIndexFile]⟩ := by
  rw [Settings.indexPath, Path.child, layout.ofText_indexFile]

theorem targetPath_eq :
    s.targetPath = s.outputDir.join ⟨.relative, [Settings.defaultIndexFile]⟩ := by
  rw [Settings.targetPath, Path.child, layout.ofText_indexFile]

theorem named : Named s where
  relative := by
    rw [layout.ofText_indexFile]
    rfl
  parts := by
    rw [layout.ofText_indexFile]
    exact List.cons_ne_nil _ _
  down := by
    rw [layout.ofText_indexFile]
    decide

variable (workingDirectory : Location)

theorem resolve_outputDir : s.outputDir.resolve workingDirectory =
    s.sourceDir.resolve workingDirectory ++ [Settings.defaultOutputDir] := by
  rw [layout.outputDir_eq, Path.resolve_join_name _ (by decide)]

theorem resolve_componentsPath : s.componentsPath.resolve workingDirectory =
    s.sourceDir.resolve workingDirectory ++ [Settings.defaultComponentsDir] := by
  rw [layout.componentsPath_eq, Path.resolve_join_name _ (by decide)]

theorem resolve_indexPath : s.indexPath.resolve workingDirectory =
    s.sourceDir.resolve workingDirectory ++ [Settings.defaultIndexFile] := by
  rw [layout.indexPath_eq, Path.resolve_join_name _ (by decide)]

end DefaultLayout

/-! ## What is assembled again -/

/-- **No reference leads out of the component directory**: no name has a slash that is referred to
on the root document or on a fragment in the component directory. -/
structure LocalReferences (t : FileTree) (s : Settings) : Prop where
  /-- The root document, without its comments. -/
  index : ∀ bytes source, t.read s.indexPath = .ok bytes → Stored.whole bytes = .ok source →
    ∀ line ∈ Text.splitLines (Comment.strip source), ∀ name ∈ Reference.names line, '/' ∉ name
  /-- The fragments. -/
  fragments : ∀ component bytes, '/' ∉ component →
    t.read (Fragment.path s.componentsPath component) = .ok bytes →
      ∀ line ∈ (Stored.lines bytes).delivered, ∀ name ∈ Reference.names line, '/' ∉ name

/-- Names without a slash are enough to expand the root document. -/
theorem LocalReferences.readsAlike (references : LocalReferences t s)
    (same : Fragment.SameIn s.componentsPath t t') :
    Expansion.ReadsAlike {name | '/' ∉ name} s.componentsPath t t' where
  read := fun _ slash => same.read slash
  closed := by
    rintro a slash b ⟨bytes, read, line, hline, taken⟩
    exact references.fragments a bytes slash read line hline b
      (Reference.mem_names_of_mem_taken taken)

/-- What is assembled is assembled behind a valid survey. -/
theorem assemble_surveys : (assemble t s).Ensures fun _ =>
    ∃ d, (Dependencies.surveyValid t s.componentsPath).Gives d := by
  rw [assemble]
  refine Noting.Ensures.trivial.bind fun source _ => ?_
  exact Noting.Ensures.bind (fun notices d run => ⟨d, notices, run⟩)
    fun d surveyed _ _ _ => surveyed

/-- **The same markup is assembled again** while the root document and the entries of the component
directory stay the same. -/
theorem assemble_again (references : LocalReferences t s) (named : t.EveryName ('/' ∉ ·))
    (same : Fragment.SameIn s.componentsPath t t')
    (index : t'.read s.indexPath = t.read s.indexPath) {markup : Text}
    (first : (assemble t s).Gives markup) (notices : Notices) :
    ((assemble t' s).run.run notices).1 = .ok markup := by
  obtain ⟨before, run⟩ := first
  obtain ⟨bytes, source, read, whole, expanded⟩ := assemble_ensures before markup run
  obtain ⟨d, earlier, valid⟩ := assemble_surveys before markup run
  have reading : (readIndex t' s.indexPath).run.run notices = (.ok source, notices) := by
    simp only [readIndex, index, read, Noting.ofFiles, pure_bind, whole]
    rfl
  obtain ⟨d', later, surveying⟩ := Dependencies.exists_surveyValid same named valid notices
  rw [assemble, Noting.run_bind_of_ok reading, Noting.run_bind_of_ok surveying, expandIndex_run]
  obtain ⟨_, expanding, -⟩ := (references.readsAlike same).gives_document
    (references.index bytes source read whole) expanded { notices := later }
    (Expansion.sound_empty t' s.componentsPath)
  rw [expanding]

/-! ## What a run leaves to do -/

/-- A run of the compilation gives the path of the root document's target. -/
theorem compile_path (s : Settings) (t : FileTree) :
    (compile s).Ends t (fun path _ => path = s.targetPath) fun _ _ => True := by
  refine (compile_endsAs s t).mono (fun path t' ends => ?_) fun _ _ _ => trivial
  cases ends
  rfl

/-- **A run does nothing** where the same markup is assembled that stands at the target, and copying
the assets is settled. -/
theorem compile_of_settled {markup : Text}
    (assembles : ∀ notices, ((assemble t s).run.run notices).1 = .ok markup)
    (standing : Publication.Standing { chunks := [markup] } s.targetPath t)
    (settled : (Assets.copyAll s).Settled Set.univ t) :
    (compile s).Ends t (fun _ => Unaltered t) fun _ _ => False := by
  rw [compile]
  refine .note_bind _ (.bind (.reading (Q := fun found t' => found = markup ∧ t' = t) ?_ ?_) ?_)
  · intro notices found run
    exact ⟨Except.ok.inj (run.symm.trans (assembles notices)), rfl⟩
  · intro notices failure run
    rw [assembles notices] at run
    cases run
  rintro _ _ ⟨rfl, rfl⟩
  refine .bind standing.publish_again ?_
  rintro _ t₁ ⟨rfl, published⟩
  refine .note_bind _ (.bind (settled t₁ (published.mono (Set.empty_subset _) Set.Subset.rfl)) ?_)
  exact fun copied t₂ after => .note_bind _ (.note_bind _ (.pure (published.trans after)))

/-! ## What the first run leaves -/

section Settles

variable (layout : DefaultLayout s)

include layout

/-- Where the root document is read the source directory is there. -/
theorem find_sourceDir {content : List UInt8} (read : t.read s.indexPath = .ok content) :
    t.find s.sourceDir = .ok (s.sourceDir.resolve t.workingDirectory, some .directory) := by
  rw [layout.indexPath_eq] at read
  exact FileTree.find_of_read_join_name read

/-- Where the target is read the output directory is there. -/
theorem find_outputDir {content : List UInt8} (read : t.read s.targetPath = .ok content) :
    t.find s.outputDir = .ok (s.outputDir.resolve t.workingDirectory, some .directory) := by
  rw [layout.targetPath_eq] at read
  exact FileTree.find_of_read_join_name read

/-- Every other entry of the source directory lies outside the output directory. -/
theorem disjoint_outputDir {name : Text} (other : name ≠ Settings.defaultOutputDir)
    (workingDirectory : Location) : Disjoint (subtree (s.outputDir.resolve workingDirectory))
      (subtree (s.sourceDir.resolve workingDirectory ++ [name])) := by
  rw [layout.resolve_outputDir]
  exact Assets.disjoint_subtree_concat _ other.symm

/-- What stands at or below another entry of the source directory is as it was when only the output
directory was touched. -/
theorem lookup_entry {name : Text} (other : name ≠ Settings.defaultOutputDir)
    (within : Alters (subtree (s.outputDir.resolve t.workingDirectory)) ∅ t t') {l : Location}
    (inside : s.sourceDir.resolve t.workingDirectory ++ [name] <+: l) :
    t'.lookup l = t.lookup l :=
  within.lookup_eq fun h => Set.disjoint_left.mp (disjoint_outputDir layout other _) h inside

theorem parent_targetPath_eq : s.targetPath.parent = s.outputDir := by
  rw [layout.targetPath_eq, Path.join_name, Path.parent, List.dropLast_concat]

/-- Publishing alters nothing outside the output directory: the directories on the way to it are
there already. -/
theorem publish_within {source : ChunkSource} {t₁ : FileTree}
    (foundSource : t.find s.sourceDir =
      .ok (s.sourceDir.resolve t.workingDirectory, some .directory))
    (published : Publication.Published source s.targetPath t t₁) :
    Alters (subtree (s.outputDir.resolve t.workingDirectory)) ∅ t t₁ := by
  refine (published.alters.mono ?_ Set.Subset.rfl).of_made_stands ?_
  · rintro l (rfl | rfl)
    · exact target_mem_subtree layout.named _
    · exact temporary_mem_subtree layout.named _
  · intro l ⟨parts, before, place⟩ outside
    rw [parent_targetPath_eq layout, layout.outputDir_eq, Path.join_name] at before place
    rcases List.prefix_concat_iff.mp before with rfl | before
    · refine absurd ?_ outside
      rw [place, layout.outputDir_eq, Path.join_name]
      exact Assets.mem_subtree_self _
    · rw [FileTree.lookup_of_mem_stations foundSource ⟨parts, before, place⟩]
      nofun

/-- Outside the output directory the component directory has the entries it had. -/
theorem sameIn_componentsPath {markup : Text} (first : (assemble t s).Gives markup)
    (within : Alters (subtree (s.outputDir.resolve t.workingDirectory)) ∅ t t') :
    Fragment.SameIn s.componentsPath t t' := by
  obtain ⟨notices, run⟩ := first
  obtain ⟨d, earlier, valid⟩ := assemble_surveys notices markup run
  obtain ⟨names, listed⟩ : ∃ names, t.list s.componentsPath = .ok names :=
    (Dependencies.survey_lists.bind (Q := fun _ => ∃ names, t.list s.componentsPath = .ok names)
      fun _ ⟨names, listed, _⟩ => Noting.Ensures.trivial.bind fun _ _ => .pure ⟨names, listed⟩)
      earlier d valid
  obtain ⟨l, found, -⟩ := FileTree.list_eq_ok listed
  refine Fragment.sameIn_of_alters found within fun name => ?_
  rw [(FileTree.find_eq_ok found).1, layout.resolve_componentsPath]
  exact lookup_entry layout (by decide) within (List.prefix_append _ _)

/-- Only an asset with the temporary file's name is copied to its place. -/
theorem eq_of_selects_temporaryPlace {workingDirectory : Location} {name : Text}
    (selects : Assets.Selects s workingDirectory name
      (Publication.temporaryPlace s.targetPath workingDirectory)) :
    name = "index.html.tmp".toList := by
  have inside : s.outputDir.resolve workingDirectory ++ [name] <+:
      Publication.temporaryPlace s.targetPath workingDirectory :=
    Assets.mem_subtree_of_selects selects
  have last : s.targetPath.name = Settings.defaultIndexFile := by
    rw [layout.targetPath_eq, Path.join_name, Path.name, List.getLastD_concat]
  rw [Publication.temporaryPlace, parent_targetPath_eq layout, last,
    List.prefix_append_right_inj] at inside
  exact (List.cons_prefix_cons.mp inside).1

/-- Behind a publication, copying the assets leaves what was published and is settled. -/
theorem copyAll_standing {markup : Text} {t₁ : FileTree} (plain : t₁.Plain)
    (foundSource : t₁.find s.sourceDir =
      .ok (s.sourceDir.resolve t₁.workingDirectory, some .directory))
    (room : t₁.lookup (s.sourceDir.resolve t₁.workingDirectory ++ ["index.html.tmp".toList]) = none)
    (standing : Publication.Standing { chunks := [markup] } s.targetPath t₁) :
    (Assets.copyAll s).Ends t₁ (fun _ t₂ =>
      Alters (subtree (s.outputDir.resolve t₁.workingDirectory)) ∅ t₁ t₂ ∧
        Publication.Standing { chunks := [markup] } s.targetPath t₂ ∧
        (Assets.copyAll s).Settled Set.univ t₂) fun _ _ => True := by
  have outside : s.sourceDir.resolve t₁.workingDirectory ∉
      subtree (s.outputDir.resolve t₁.workingDirectory) := by
    intro (inside : _ <+: _)
    have long := inside.length_le
    rw [layout.resolve_outputDir, List.length_append, List.length_singleton] at long
    omega
  have foundOutput := find_outputDir layout standing.content
  refine Ends.mono (Assets.copyAll_settles plain foundSource foundOutput outside
    fun name kept => disjoint_outputDir layout ?_ _) ?_ fun _ _ h => h
  · rintro rfl
    rw [← layout.resolve_outputDir] at kept
    exact kept (by simp)
  · rintro copied t₂ ⟨alters, settled⟩
    refine ⟨alters.mono ?_ Set.Subset.rfl, standing.of_alters alters ?_ ?_, settled⟩
    · rintro l ⟨name, -, selects⟩
      exact mem_subtree_of_selects selects
    · rintro ⟨name, listed, selects⟩
      have spares : Spares s t₁.workingDirectory :=
        (spares_iff layout.ofText_indexFile (by decide)).mpr (.inl rfl)
      exact spares name (plain.of_mem_names listed) selects
    · rintro ⟨name, listed, selects⟩
      obtain rfl := eq_of_selects_temporaryPlace layout selects
      exact FileTree.mem_names_iff.mp listed room

/-- **A run leaves nothing for another run to do**, on every tree that is as it left it. -/
theorem compile_settles (plain : t.Plain) (named : t.EveryName ('/' ∉ ·))
    (room : t.lookup (s.sourceDir.resolve t.workingDirectory ++ ["index.html.tmp".toList]) = none)
    (references : LocalReferences t s) :
    (compile s).Settles (subtree (s.outputDir.resolve t.workingDirectory)) Set.univ t := by
  rw [Settles, compile]
  refine .note_bind _ (.bind (.reading (Q := fun markup t' => (assemble t s).Gives markup ∧ t = t')
    (fun notices _ run => ⟨⟨notices, run⟩, rfl⟩) fun _ _ _ => trivial) ?_)
  rintro markup _ ⟨first, rfl⟩
  obtain ⟨bytes, -, read, -⟩ := assemble_ensures _ _ first.choose_spec
  have foundSource := find_sourceDir layout read
  refine .bind (((Publication.publish_ends _ _ t).and (Publication.publish_standing _ _ t)).mono
    (fun _ _ h => h) fun _ _ _ => trivial) ?_
  rintro _ t₁ ⟨⟨rfl, published⟩, standing⟩
  have publishing := publish_within layout foundSource published
  have same := publishing.workingDirectory
  refine .note_bind _ (.bind (copyAll_standing layout (publishing.plain plain) ?_ ?_ standing) ?_)
  · rw [same]
    exact publishing.find_directory foundSource
  · rw [same, lookup_entry layout (by decide) publishing List.prefix_rfl]
    exact room
  rintro copied t₂ ⟨copying, standing, settled⟩
  rw [same] at copying
  have within := publishing.trans copying
  refine .note_bind _ (.note_bind _ (.pure ⟨within, fun t₃ keeps => ?_⟩))
  -- the second run starts on a tree that differs from the first one in the output directory only
  have unaltered : Unaltered t₂ t₃ := keeps.mono (fun _ other => other trivial) Set.Subset.rfl
  have since := within.trans (unaltered.mono (Set.empty_subset _) Set.Subset.rfl)
  have index : t₃.read s.indexPath = t.read s.indexPath := by
    rw [read]
    refine since.read (fun inside => ?_) read
    rw [layout.resolve_indexPath] at inside
    exact Set.disjoint_left.mp (disjoint_outputDir layout (by decide) _) inside List.prefix_rfl
  exact compile_of_settled
    (assemble_again references named (sameIn_componentsPath layout first since) index first)
    (standing.of_alters unaltered (Set.notMem_empty _) (Set.notMem_empty _))
    fun t₄ keeps' => settled t₄ (keeps.trans keeps')

end Settles

/-- **Compiling a site again changes nothing.**  In the default layout, on every tree that has
nothing in the temporary file's name beside the root document and no reference that leads out of the
component directory: when a run ends with a result, another run on the tree that it left ends with
the same result, and leaves at every place what the first run left there. -/
theorem compile_again {before after : Session} {path : Path} (layout : DefaultLayout s)
    (plain : before.tree.Plain) (named : before.tree.EveryName ('/' ∉ ·))
    (room : before.tree.lookup (s.sourceDir.resolve before.tree.workingDirectory ++
      ["index.html.tmp".toList]) = none)
    (references : LocalReferences before.tree s)
    (run : (compile s).runOn before = (.ok path, after)) (notices : Notices) :
    ∃ later, (compile s).runOn ⟨after.tree, notices⟩ = (.ok path, later) ∧
      later.tree.workingDirectory = after.tree.workingDirectory ∧
      ∀ l, later.tree.lookup l = after.tree.lookup l := by
  have settles := compile_settles layout plain named room references before.notices
  have first := compile_path s before.tree before.notices
  rw [show (⟨before.tree, before.notices⟩ : Session) = before from rfl, run] at settles first
  have again := settles.2 after.tree (.refl _ _ _) notices
  have second := compile_path s after.tree notices
  rcases outcome : (compile s).runOn ⟨after.tree, notices⟩ with ⟨_ | path', later⟩ <;>
    rw [outcome] at again second
  · exact again.elim
  · obtain rfl : path' = path := second.trans first.symm
    exact ⟨later, rfl, again.workingDirectory, again.lookup⟩

/-! ### A site in the working directory -/

/-- A site in the working directory, with one component and one asset. -/
def standardTree : FileTree where
  entries := [(["components".toList], .directory),
    (["components".toList, "p.html".toList], .file (Utf8.encode "P\n".toList)),
    (["index.html".toList], .file (Utf8.encode "<app-p/>\n".toList)),
    (["style.css".toList], .file (Utf8.encode "a\n".toList))]

/-- Its settings: nothing is given. -/
def standardSettings : Settings := .make none none none none none none

theorem localReferences_standard : LocalReferences standardTree standardSettings where
  index := by
    intro bytes source read whole
    have content : standardTree.read standardSettings.indexPath =
        .ok (Utf8.encode "<app-p/>\n".toList) := by decide
    obtain rfl := Except.ok.inj (content.symm.trans read)
    have text : Stored.whole (Utf8.encode "<app-p/>\n".toList) = .ok "<app-p/>\n".toList := by
      decide +kernel
    obtain rfl := Except.ok.inj (text.symm.trans whole)
    decide +kernel
  fragments := by
    intro component bytes _ read line hline name hname
    have none : ∀ name ∈ Expansion.written standardTree, '/' ∉ name := by decide +kernel
    obtain ⟨l, file⟩ := Expansion.exists_file_of_read read
    exact none name (List.mem_flatMap.mpr ⟨_, file, List.mem_flatMap.mpr ⟨line, hline, hname⟩⟩)

/-- The first run compiles the root document and copies the asset, and the second run changes
nothing. -/
theorem compile_again_standard : ∃ after later,
    (compile standardSettings).runOn ⟨standardTree, #[]⟩ =
      (.ok standardSettings.targetPath, after) ∧
    after.tree.lookup ["output".toList, "style.css".toList] =
      some (.file (Utf8.encode "a\n".toList)) ∧
    (compile standardSettings).runOn after = (.ok standardSettings.targetPath, later) ∧
    ∀ l, later.tree.lookup l = after.tree.lookup l := by
  have path : ((compile standardSettings).runOn ⟨standardTree, #[]⟩).1 =
      .ok standardSettings.targetPath := by cbv
  have asset : ((compile standardSettings).runOn ⟨standardTree, #[]⟩).2.tree.lookup
      ["output".toList, "style.css".toList] = some (.file (Utf8.encode "a\n".toList)) := by cbv
  have plain : standardTree.Plain := ⟨by decide, by decide⟩
  have named : standardTree.EveryName ('/' ∉ ·) := ⟨by decide, by decide⟩
  obtain ⟨later, second, -, same⟩ := compile_again (defaultLayout_make none none none) plain named
    rfl localReferences_standard (Prod.ext path rfl) _
  exact ⟨_, later, Prod.ext path rfl, asset, second, same⟩

end PageAssembly.Site
