import PageAssembly.Proofs.Assets.Reach
import PageAssembly.Proofs.Expansion.Memo
import PageAssembly.Proofs.Publication.Outcome
import PageAssembly.Proofs.Survey.Contents
import PageAssembly.Site

/-!
# The compiled root document

A site that compiles without a failure has the compiled root document at its target when the assets
have been copied too, provided that no asset is copied there.

## Main definitions

* `Site.Compiled` — what a root document compiles to, on a tree that stays as it is
* `Site.Spares` — settings that select no asset for the target

## Main statements

* `Site.compile_publishes` — the target has the compiled root document after the run
* `Site.spares_iff` — which root documents below the source directory are spared

### Which settings spare the target

The root document is left out by its place, which is compared with the entries of the source
directory only.  A root document further down is copied with the directory that holds it, when that
directory's name has a keyword.
-/

namespace PageAssembly.Site

open FileTree (Alters)

/-- The markup is the root document without comments and with its references replaced, starting
from nothing remembered. -/
def Assembled (t : FileTree) (s : Settings) (markup : Text) : Prop :=
  ∃ bytes source, t.read s.indexPath = .ok bytes ∧ Stored.whole bytes = .ok source ∧
    ((Expansion.document t s.componentsPath s.indexFile (Comment.strip source)).run.run {}).1 =
      .ok markup

/-- **What the root document compiles to**, on a tree that stays as it is. -/
def Compiled (t : FileTree) (s : Settings) (compiled : Text) : Prop :=
  ∃ markup, Assembled t s markup ∧ Markup.indented markup = .ok compiled

/-- **No asset is copied to the place of the compiled root document.** -/
def Spares (s : Settings) (workingDirectory : Location) : Prop :=
  ∀ name, name ≠ Path.up →
    ¬ Assets.Selects s workingDirectory name (s.targetPath.resolve workingDirectory)

variable {t : FileTree} {s : Settings}

/-- A root document compiles to one text. -/
theorem Compiled.unique {a b : Text} (ha : Compiled t s a) (hb : Compiled t s b) : a = b := by
  obtain ⟨_, ⟨_, _, read, whole, expanded⟩, indented⟩ := ha
  obtain ⟨_, ⟨_, _, read', whole', expanded'⟩, indented'⟩ := hb
  obtain rfl := Except.ok.inj (read.symm.trans read')
  obtain rfl := Except.ok.inj (whole.symm.trans whole')
  obtain rfl := Except.ok.inj (expanded.symm.trans expanded')
  exact Except.ok.inj (indented.symm.trans indented')

/-- **A root document below the source directory is spared** when it stands there itself, or when
the first directory on its way is left out or has no keyword in its name; and not otherwise. -/
theorem spares_iff {workingDirectory : Location} {first : Text} {rest : List Text}
    (index : Path.ofText s.indexFile = ⟨.relative, first :: rest⟩) (down : Path.up ∉ first :: rest) :
    Spares s workingDirectory ↔ rest = [] ∨
      Assets.entryPlace s.sourceDir workingDirectory first ∈
        [s.indexPath, s.componentsPath, s.outputDir].map (Path.resolve workingDirectory) ∨
      s.assetKeywords.any (Text.contains first) = false := by
  have place (directory : Path) : (directory.child s.indexFile).resolve workingDirectory =
      directory.resolve workingDirectory ++ first :: rest := by
    rw [Path.child, index, Path.resolve_join rfl]
    exact Path.foldl_follow_of_up_not_mem down _
  have target : s.targetPath.resolve workingDirectory = _ := place s.outputDir
  have source : s.indexPath.resolve workingDirectory = _ := place s.sourceDir
  have proper : first ≠ Path.up := fun same => down (same ▸ List.mem_cons_self)
  constructor
  · intro spares
    by_contra none
    obtain ⟨deep, kept, keyword⟩ := not_or.mp none |>.imp_right not_or.mp
    refine spares first proper ⟨kept, .inl ⟨by simpa using keyword, ?_⟩⟩
    rw [target, Assets.entryPlace]
    exact ⟨rest, by simp⟩
  · rintro safe name hn ⟨kept, reached⟩
    rw [target, Assets.entryPlace] at reached
    have same : name = first := by
      rcases reached with ⟨-, below⟩ | ⟨-, here⟩
      · exact (List.cons_prefix_cons.mp ((List.prefix_append_right_inj _).mp below)).1
      · exact (List.cons.inj (List.append_cancel_left here)).1.symm
    subst same
    rcases safe with rfl | left | keyword
    · exact kept (List.mem_map.mpr ⟨s.indexPath, List.mem_cons_self, source⟩)
    · exact kept left
    · rcases reached with ⟨has, -⟩ | ⟨-, here⟩
      · rw [keyword] at has
        cases has
      · obtain rfl := (List.cons.inj (List.append_cancel_left here)).2
        exact kept (List.mem_map.mpr ⟨s.indexPath, List.mem_cons_self, source⟩)

/-- Expanding the root document ends as the expansion does, with its notices. -/
theorem expandIndex_ends (source : Text) (notices : Notices) :
    (expandIndex t s source).run.run notices =
      let ended := (Expansion.document t s.componentsPath s.indexFile
        (Comment.strip source)).run.run { notices }
      (ended.1, ended.2.notices) := by
  let ended := (Expansion.document t s.componentsPath s.indexFile
    (Comment.strip source)).run.run { notices }
  show (do
    set ended.2.notices
    MonadExcept.ofExcept ended.1 : Noting Text).run.run notices = (ended.1, ended.2.notices)
  cases ended.1 <;> rfl

/-- Expanding the root document gives what the expansion gives. -/
theorem expandIndex_run (source : Text) (notices : Notices) :
    ((expandIndex t s source).run.run notices).1 =
      ((Expansion.document t s.componentsPath s.indexFile (Comment.strip source)).run.run
        { notices }).1 :=
  congrArg Prod.fst (expandIndex_ends source notices)

/-- What is assembled is the root document's markup. -/
theorem assemble_ensures : (assemble t s).Ensures (Assembled t s) := by
  have index : (readIndex t s.indexPath).Ensures fun source =>
      ∃ bytes, t.read s.indexPath = .ok bytes ∧ Stored.whole bytes = .ok source := by
    rw [readIndex]
    refine Noting.Ensures.ofFiles.bind fun bytes read => ?_
    split
    · next source whole => exact .pure ⟨bytes, read, whole⟩
    · exact .throw _
  rw [assemble]
  refine index.bind fun source ⟨bytes, read, whole⟩ => ?_
  refine Noting.Ensures.trivial.bind fun _ _ notices markup run => ⟨bytes, source, read, whole, ?_⟩
  -- the expansion gives one outcome, whatever was reported before
  rw [expandIndex_run] at run
  have empty := Expansion.sound_empty t s.componentsPath
  obtain ⟨_, here, -⟩ := Expansion.gives_document s.indexFile (Comment.strip source)
    { notices } empty
  obtain ⟨_, alone, -⟩ := Expansion.gives_document s.indexFile (Comment.strip source) {} empty
  rw [here] at run
  rw [alone]
  exact run

/-- Published markup is indented. -/
theorem indented_of_published {markup : Text} {target : Path} {t' : FileTree}
    (published : Publication.Published { chunks := [markup] } target t t') :
    Markup.indented markup = .ok (Markup.layout [markup]).text := by
  obtain ⟨tags, readable⟩ := published.readable
  have ending : (Markup.layout [markup]).ending = .ok tags := readable
  rw [Markup.indented, ending]
  rfl

/-- Copying assets leaves a file at the target that they spare. -/
theorem copyAll_leaves_target (plain : t.Plain) (spares : Spares s t.workingDirectory)
    {content : List UInt8} (stands : t.read s.targetPath = .ok content) :
    (Assets.copyAll s).Leaves t fun t' => t'.read s.targetPath = .ok content := by
  have elsewhere (name : Text) (proper : name ≠ Path.up) (l : Location)
      (selects : Assets.Selects s t.workingDirectory name l) :
      l ∈ {l | l ≠ s.targetPath.resolve t.workingDirectory} := by
    rintro rfl
    exact spares name proper selects
  have copied := Assets.copyAll_leaves plain (.refl _ Set.univ t) elsewhere (Set.subset_univ _)
  have kept (t' : FileTree) (h : Alters {l | l ≠ s.targetPath.resolve t.workingDirectory} Set.univ
      t t') : t'.read s.targetPath = .ok content := h.read (fun other => other rfl) stands
  exact copied.mono (fun _ => kept) fun _ => kept

/-- A run that ends with a result has compiled the root document. -/
theorem compile_ends (plain : t.Plain) (spares : Spares s t.workingDirectory) :
    (compile s).Ends t (fun path t' => path = s.targetPath ∧
      ∃ compiled, Compiled t s compiled ∧ t'.read path = .ok (Utf8.encode compiled))
      fun _ _ => True := by
  rw [compile]
  refine .note_bind _ (.bind (.reading (Q := fun markup t' => t = t' ∧ Assembled t s markup)
    (fun notices markup h => ⟨rfl, assemble_ensures notices markup h⟩) fun _ _ _ => trivial) ?_)
  rintro markup _ ⟨rfl, assembled⟩
  refine .bind ((Publication.publish_ends _ _ _).mono (fun _ _ h => h) fun _ _ _ => trivial) ?_
  rintro _ t₁ ⟨rfl, published⟩
  refine .note_bind _ (.bind (P := fun _ t' => t'.read s.targetPath =
    .ok (Utf8.encode (Markup.layout [markup]).text)) ?_ fun copied t₂ content => ?_)
  · refine Job.Ends.mono (copyAll_leaves_target (published.alters.plain plain) ?_
      published.content) (fun _ _ h => h) fun _ _ _ => trivial
    rw [published.alters.workingDirectory]
    exact spares
  · have compiled : Compiled t s (Markup.layout [markup]).text :=
      ⟨markup, assembled, indented_of_published published⟩
    exact .note_bind _ (.note_bind _ (.pure ⟨rfl, _, compiled, content⟩))

/-- **The compiled root document is at the target after the run**: when no asset is copied there,
and the tree has no name `..`, a site that compiles gives its target's path, and the file there
holds what the root document compiled to on the tree before the run. -/
theorem compile_publishes {before after : Session} {path : Path} (plain : before.tree.Plain)
    (spares : Spares s before.tree.workingDirectory)
    (run : (compile s).runOn before = (.ok path, after)) :
    path = s.targetPath ∧ ∃ compiled, Compiled before.tree s compiled ∧
      after.tree.read path = .ok (Utf8.encode compiled) := by
  have ends := compile_ends plain spares before.notices
  rw [show (⟨before.tree, before.notices⟩ : Session) = before from rfl, run] at ends
  exact ends

/-! ### Two sites -/

/-- Where no component reaches itself, the root document is expanded. -/
theorem assemble_run_of_acyclic {source : Text} {d : Dependencies} {notices later : Notices}
    (index : (readIndex t s.indexPath).run.run notices = (.ok source, notices))
    (found : (Dependencies.survey t s.componentsPath).run.run notices = (.ok d, later))
    (acyclic : d.cyclic = []) :
    (assemble t s).run.run notices = (expandIndex t s source).run.run later := by
  have valid := Dependencies.surveyValid_run found acyclic
  rw [assemble, Noting.run_bind_of_ok index, Noting.run_bind_of_ok valid]

/-- What is assembled is published, and then the assets are copied. -/
theorem compile_run_of_assembled (notices : Notices) {markup : Text} {later : Notices}
    (assembled : (assemble t s).run.run (notices.push (.compiling s.sourceDir)) =
      (.ok markup, later)) :
    (compile s).runOn ⟨t, notices⟩ = (do
      let written ← Publication.publish { chunks := [markup] } s.targetPath
      Job.note (.wrote written)
      let copied ← Assets.copyAll s
      Job.note (.copied copied.length)
      Job.note .done
      return written : Job Path).runOn ⟨t, later⟩ := by
  rw [compile, Job.runOn_bind, Job.runOn_note]
  dsimp only
  rw [Job.runOn_bind, Job.runOn_reading, assembled]

/-- A site with one component.  The root document is in the source directory, or in a directory
there that is copied. -/
def exampleTree (nested : Bool) : FileTree where
  entries := [(["components".toList], .directory),
    (["components".toList, "p.html".toList], .file (Utf8.encode "P\n".toList)),
    (["src".toList], .directory)] ++
    if nested then [(["src".toList, "html".toList], .directory),
      (["src".toList, "html".toList, "index.html".toList],
        .file (Utf8.encode "<app-p/>\n".toList))]
    else [(["src".toList, "index.html".toList], .file (Utf8.encode "<app-p/>\n".toList))]

/-- The settings of the site, with the default keywords. -/
def exampleSettings (nested : Bool) : Settings :=
  .make (some (Path.ofText "src".toList)) (some (Path.ofText "out".toList))
    (some "../components".toList)
    (some (if nested then "html/index.html".toList else "index.html".toList)) none none

/-- What is reported before the root document is expanded. -/
def exampleNotices : Notices :=
  #[.compiling (Path.ofText "src".toList), .references ['p'] []]

/-- The one component refers to nothing. -/
theorem cyclic_example : (⟨[(['p'], [])]⟩ : Dependencies).cyclic = [] := by
  simp [Dependencies.cyclic, Dependencies.components, Dependencies.closure, Dependencies.direct,
    Dependencies.closureFrom, Text.sort]

theorem assemble_example (nested : Bool) :
    (assemble (exampleTree nested) (exampleSettings nested)).run.run
      #[.compiling (Path.ofText "src".toList)] = (.ok "P\n\n".toList, exampleNotices) := by
  have index : (readIndex (exampleTree nested) (exampleSettings nested).indexPath).run.run
      #[.compiling (Path.ofText "src".toList)] =
        (.ok "<app-p/>\n".toList, #[.compiling (Path.ofText "src".toList)]) := by
    cases nested <;> exact Prod.ext (by decide +kernel) (by decide +kernel)
  have found : (Dependencies.survey (exampleTree nested)
      (exampleSettings nested).componentsPath).run.run #[.compiling (Path.ofText "src".toList)] =
        (.ok ⟨[(['p'], [])]⟩, exampleNotices) := by
    cases nested <;> exact Prod.ext (by decide +kernel) (by decide +kernel)
  rw [assemble_run_of_acyclic index found cyclic_example]
  cases nested <;> exact Prod.ext (by decide +kernel) (by decide +kernel)

theorem compile_example (nested : Bool) :
    ∃ after, (compile (exampleSettings nested)).runOn ⟨exampleTree nested, #[]⟩ =
      (.ok (exampleSettings nested).targetPath, after) ∧
      after.tree.read (exampleSettings nested).targetPath =
        .ok (Utf8.encode (if nested then "<app-p/>\n" else "P\n").toList) := by
  refine ⟨_, (compile_run_of_assembled #[] (assemble_example nested)).trans
    (Prod.ext ?_ rfl), ?_⟩
  · cases nested <;> decide +kernel
  · cases nested <;> decide +kernel

/-- With the root document in the source directory the target has the compiled one. -/
theorem compile_publishes_example : ∃ after,
    (compile (exampleSettings false)).runOn ⟨exampleTree false, #[]⟩ =
      (.ok (exampleSettings false).targetPath, after) ∧
    ∃ compiled, Compiled (exampleTree false) (exampleSettings false) compiled ∧
      after.tree.read (exampleSettings false).targetPath = .ok (Utf8.encode compiled) := by
  obtain ⟨after, run, -⟩ := compile_example false
  have plain : (exampleTree false).Plain := ⟨by decide, by decide⟩
  have index : Path.ofText (exampleSettings false).indexFile =
      ⟨.relative, ["index.html".toList]⟩ := rfl
  have spares : Spares (exampleSettings false) [] := (spares_iff index (by decide)).mpr (.inl rfl)
  exact ⟨after, run, (compile_publishes plain spares run).2⟩

/-- With the root document in the directory that is copied it compiles to `P`, and the file at the
target is the one that it was read from. -/
theorem compile_overwrites : ∃ after,
    (compile (exampleSettings true)).runOn ⟨exampleTree true, #[]⟩ =
      (.ok (exampleSettings true).targetPath, after) ∧
    Compiled (exampleTree true) (exampleSettings true) "P\n".toList ∧
      after.tree.read (exampleSettings true).targetPath =
        .ok (Utf8.encode "<app-p/>\n".toList) := by
  obtain ⟨after, run, content⟩ := compile_example true
  refine ⟨after, run, ⟨"P\n\n".toList, ⟨Utf8.encode "<app-p/>\n".toList,
    "<app-p/>\n".toList, ?_⟩, ?_⟩, content⟩
  · exact ⟨by decide, by decide +kernel, by decide +kernel⟩
  · decide +kernel

end PageAssembly.Site
