import PageAssembly.Proofs.Expansion.Position
import PageAssembly.Proofs.Expansion.Warnings
import PageAssembly.Proofs.Job.Unmoved
import PageAssembly.Proofs.Site.Index

/-!
# What a run reports about references without a fragment

Compiling a site reports such a reference once for each place where it is written, with the number
of a line.  For the root document these are the lines that are left when the comments have been
taken out, cut at every kind of line end; here they are compared with the lines of the file.

## Main definitions

* `Site.missing` — the notices about references without a fragment
* `Site.Diagnoses` — some places are those that a run has reported

## Main statements

* `Site.publish_unmoved`, `Site.copyAll_unmoved` — the later stages report no such reference
* `Site.compile_diagnoses` — what a run reports, and when the number of a line is right

### When the number is wrong

A comment over several lines makes the numbers behind it too small, and a form feed or another rare
line end makes them too large.  The number is right when the two make up for each other, above all
when neither occurs before the reference.
-/

namespace PageAssembly.Site

open Comment (outside within spelled)
open Expansion (Occurrence Written Stands occurrences warnings lineBehind endsOtherwise)

/-! ## The notices about references without a fragment -/

/-- Whether a notice is about a reference without a fragment. -/
def isMissing : Notice → Bool
  | .missingFragment .. => true
  | _ => false

/-- The notices about references without a fragment, in the order of reporting. -/
def missing (n : Notices) : List Notice := n.toList.filter isMissing

theorem missing_push {notice : Notice} (other : isMissing notice = false) (n : Notices) :
    missing (n.push notice) = missing n := by
  rw [missing, Array.toList_push, List.filter_append, List.filter_singleton, other]
  exact List.append_nil _

theorem filter_warnings (n : Notices) : (warnings n).filter isMissing = missing n := by
  rw [warnings, List.filter_filter, missing]
  refine List.filter_congr fun notice _ => ?_
  cases notice <;> rfl

/-- Warnings that are added make up the notices that are added. -/
theorem missing_of_warnings {n n' : Notices} {told : List Occurrence} {source : Text}
    {directory : Path}
    (h : warnings n' = warnings n ++ told.map (Occurrence.notice source directory)) :
    missing n' = missing n ++ told.map (Occurrence.notice source directory) := by
  have all : (told.map (Occurrence.notice source directory)).filter isMissing =
      told.map (Occurrence.notice source directory) := by
    rw [List.filter_eq_self]
    rintro notice h
    obtain ⟨o, -, rfl⟩ := List.mem_map.mp h
    rfl
  rw [← filter_warnings, h, List.filter_append, filter_warnings, all]

/-! ## Stages that report none -/

section Stages

variable {t : FileTree} {directory : Path}

theorem note_unmoved {notice : Notice} (other : isMissing notice = false) :
    Unmoved missing (Noting.note notice) := fun n => missing_push other n

theorem surveyFile_unmoved (component : Text) :
    Unmoved missing (Dependencies.surveyFile t directory component) := by
  rw [Dependencies.surveyFile]
  refine (Unmoved.noting_ofFiles _ _).bind fun isDirectory => ?_
  split
  · exact .pure _
  · refine (Unmoved.noting_ofFiles _ _).bind fun bytes => ?_
    dsimp only
    split
    · exact .throw _
    · exact (note_unmoved rfl).bind fun _ => .pure _

theorem surveyFiles_unmoved (names : List Text) :
    Unmoved missing (Dependencies.surveyFiles t directory names) := by
  induction names with
  | nil => exact .pure _
  | cons name names ih =>
      rw [Dependencies.surveyFiles]
      split
      · exact (surveyFile_unmoved _).bind fun found => ih.bind fun rest => .pure _
      · exact Unmoved.bind (.pure _) fun found => ih.bind fun rest => .pure _

theorem validate_unmoved (d : Dependencies) : Unmoved missing d.validate := by
  rw [Dependencies.validate]
  refine (Unmoved.forM _ fun component => note_unmoved rfl).bind fun _ => ?_
  split
  · exact .throw _
  · exact .pure _

/-- **The survey reports no reference without a fragment.** -/
theorem surveyValid_unmoved : Unmoved missing (Dependencies.surveyValid t directory) := by
  have surveyed : Unmoved missing (Dependencies.survey t directory) :=
    (Unmoved.noting_ofFiles _ _).bind fun names => (surveyFiles_unmoved names).bind fun _ => .pure _
  exact surveyed.bind fun d => (validate_unmoved d).bind fun _ => .pure d

theorem job_note_unmoved {notice : Notice} (other : isMissing notice = false) :
    Unmoved (fun s => missing s.notices) (Job.note notice) := .note (missing_push other)

theorem fill_unmoved (source : ChunkSource) (temporary : Path) :
    Unmoved (fun s => missing s.notices) (Publication.fill source temporary) := by
  rw [Publication.fill]
  refine (Unmoved.change _).bind fun _ => ?_
  split
  · exact .throw _
  · exact .throw _
  · exact .forM _ fun tag => job_note_unmoved rfl

theorem prepare_unmoved (source : ChunkSource) (target temporary : Path) :
    Unmoved (fun s => missing s.notices) (Publication.prepare source target temporary) := by
  rw [Publication.prepare]
  refine Unmoved.tree.bind fun t => (Unmoved.setTree _).bind fun _ => ?_
  exact (Unmoved.ofFiles _).bind fun _ => (Unmoved.change _).bind fun _ => fill_unmoved _ _

theorem cleanUp_unmoved (temporary : Path) :
    Unmoved (fun s => missing s.notices) (Publication.cleanUp temporary) := by
  rw [Publication.cleanUp]
  refine Unmoved.tree.bind fun t => ?_
  split
  · exact .setTree _
  · exact .pure _
  · exact .throw _

/-- **Publishing reports no reference without a fragment.** -/
theorem publish_unmoved (source : ChunkSource) (target : Path) :
    Unmoved (fun s => missing s.notices) (Publication.publish source target) := by
  rw [Publication.publish]
  split
  · exact .throw _
  · next temporary _ =>
      refine Unmoved.bind (.tryCatch ?_ fun failure => ?_) fun _ => .pure target
      · exact (prepare_unmoved source target temporary).bind fun _ => .change _
      · split
        · exact .throw _
        · exact (cleanUp_unmoved temporary).bind fun _ => .throw _

/-- What is left out of the assets is reported. -/
theorem leftOut_unmoved {α : Type} {notice : Notice} (other : isMissing notice = false)
    (f : FileFailure) (a : α) : Unmoved (fun s => missing s.notices) (do
      if !f.isSystem then throw (.files f)
      Job.note notice
      return a : Job α) := by
  have noted : Unmoved (fun s => missing s.notices) (do
      Job.note notice
      return a : Job α) := (job_note_unmoved other).bind fun _ => .pure a
  dsimp only
  split
  · exact (Unmoved.throw _).bind fun _ => noted
  · exact noted

theorem copyFile_unmoved (source target : Path) :
    Unmoved (fun s => missing s.notices) (Assets.copyFile source target) := by
  rw [Assets.copyFile]
  refine Unmoved.tree.bind fun t => ?_
  split
  · exact (Unmoved.setTree _).bind fun _ => .pure _
  · exact leftOut_unmoved rfl _ _

theorem openDirectory_unmoved (source target : Path) :
    Unmoved (fun s => missing s.notices) (Assets.openDirectory source target) := by
  rw [Assets.openDirectory]
  refine Unmoved.tree.bind fun t => ?_
  split
  · exact leftOut_unmoved rfl _ _
  · refine Unmoved.tree.bind fun t => (Unmoved.setTree _).bind fun _ => ?_
    split
    · exact leftOut_unmoved rfl _ _
    · exact .pure _

theorem copyLevels_unmoved (levels : Nat) (source target : Path) :
    Unmoved (fun s => missing s.notices) (Assets.copyLevels levels source target) := by
  induction levels generalizing source target with
  | zero => exact (job_note_unmoved rfl).bind fun _ => .pure _
  | succ levels ih =>
      rw [Assets.copyLevels]
      refine (openDirectory_unmoved source target).bind fun names => ?_
      refine (Unmoved.mapM _ fun name => ?_).bind fun copied => .pure _
      refine Unmoved.tree.bind fun t => (Unmoved.ofFiles _).bind fun isDirectory => ?_
      split
      · exact ih _ _
      · exact (copyFile_unmoved _ _).bind fun copied => .pure _

theorem copyEntry_unmoved (s : Settings) (excluded : List Location) (name : Text) :
    Unmoved (fun s => missing s.notices) (Assets.copyEntry s excluded name) := by
  rw [Assets.copyEntry]
  refine Unmoved.tree.bind fun t => (Unmoved.ofFiles _).bind fun place => ?_
  split
  · exact .pure _
  · refine (Unmoved.ofFiles _).bind fun isDirectory => ?_
    split
    · split
      · exact copyLevels_unmoved _ _ _
      · exact .pure _
    · split
      · exact (copyFile_unmoved _ _).bind fun copied => .pure _
      · exact .pure _

/-- **Copying assets reports no reference without a fragment.** -/
theorem copyAll_unmoved (s : Settings) :
    Unmoved (fun s => missing s.notices) (Assets.copyAll s) := by
  rw [Assets.copyAll]
  refine Unmoved.tree.bind fun t => ?_
  refine (Unmoved.mapM _ fun p => .ofFiles _).bind fun excluded => ?_
  split
  · exact leftOut_unmoved rfl _ _
  · exact (Unmoved.mapM _ fun name => copyEntry_unmoved s excluded name).bind fun copied => .pure _

end Stages

/-! ## What a run reports -/

/-- **The places that a run has reported**, in the order of its notices, when it started with the
notices `n` and ended with `n'`, with a result or without one. -/
structure Diagnoses (t : FileTree) (s : Settings) (document : Text) (n n' : Notices) (result : Prop)
    (told : List Occurrence) : Prop where
  /-- There is one notice about each place. -/
  reported : missing n' = missing n ++ told.map (Occurrence.notice s.indexFile s.componentsPath)
  /-- No place comes twice. -/
  once : told.Nodup
  /-- Each is a reference without a fragment, in the document or in a fragment it leads to. -/
  written : ∀ o ∈ told,
    Written t s.componentsPath document o ∧ ¬ Fragment.Opens t s.componentsPath o.name
  /-- A run with a result leaves none out. -/
  all : result → ∀ o, Written t s.componentsPath document o →
    ¬ Fragment.Opens t s.componentsPath o.name → o ∈ told

section Runs

variable {t : FileTree} {s : Settings} {source document : Text} {n n' : Notices} {result : Prop}
  {told : List Occurrence}

/-- A failure is no result. -/
theorem not_exists_ok {α : Type} {failure : Failure} :
    ¬ ∃ a : α, (.error failure : Except Failure α) = .ok a := by
  rintro ⟨a, h⟩
  cases h

/-- A run that ends before anything is expanded reports no place. -/
theorem Diagnoses.of_same (same : missing n' = missing n) (none : ¬ result) :
    Diagnoses t s document n n' result [] where
  reported := same.trans (List.append_nil _).symm
  once := List.nodup_nil
  written _ h := absurd h List.not_mem_nil
  all h := absurd h none

/-- Stages before and behind the expansion report no place. -/
theorem Diagnoses.between {m m' : Notices} {result' : Prop}
    (diagnoses : Diagnoses t s document n n' result told) (before : missing n = missing m)
    (behind : missing m' = missing n') (h : result' → result) :
    Diagnoses t s document m m' result' told where
  reported := by rw [behind, diagnoses.reported, before]
  once := diagnoses.once
  written := diagnoses.written
  all r := diagnoses.all (h r)

/-- A root document that can be read is read without a notice. -/
theorem readIndex_gives {path : Path} (read : (readIndex t path).Gives source) :
    (∃ bytes, Stored.whole bytes = .ok source) ∧
      ∀ n, (readIndex t path).run.run n = (.ok source, n) := by
  obtain ⟨m, read⟩ := read
  rw [readIndex] at read ⊢
  cases found : t.read path with
  | error f =>
      rw [found] at read
      cases read
  | ok bytes =>
      have opened (n : Notices) : (Noting.ofFiles (Failure.document path)
          (.ok bytes : Except FileFailure _)).run.run n = (.ok bytes, n) := rfl
      rw [found, Noting.run_bind_of_ok (opened m)] at read
      cases whole : Stored.whole bytes with
      | error fault =>
          rw [whole] at read
          cases read
      | ok text =>
          rw [whole] at read
          cases read
          refine ⟨⟨bytes, whole⟩, fun n => ?_⟩
          rw [Noting.run_bind_of_ok (opened n), whole]
          rfl

/-- **The expansion of the root document reports each place once.** -/
theorem expandIndex_diagnoses (source : Text) (n : Notices) : ∃ told,
    Diagnoses t s (Comment.strip source) n ((expandIndex t s source).run.run n).2
      (∃ markup, ((expandIndex t s source).run.run n).1 = .ok markup) told := by
  have met := Expansion.reports_document t s.componentsPath s.indexFile (Comment.strip source) n
  rw [expandIndex_ends]
  dsimp only
  generalize (Expansion.document t s.componentsPath s.indexFile
    (Comment.strip source)).run.run { notices := n } = ended at met
  cases met with
  | @finished met _ _ way told _ =>
      exact ⟨met.eraseDups, missing_of_warnings told.warned, nodup_eraseDups _,
        fun o ho => way.mem_iff.mp (List.mem_eraseDups.mp ho),
        fun _ o written absent => List.mem_eraseDups.mpr (way.mem_iff.mpr ⟨written, absent⟩)⟩
  | @brokenOff met _ _ begins warned =>
      exact ⟨met.eraseDups, missing_of_warnings warned, nodup_eraseDups _,
        fun o ho => begins.written (fun _ h => .document h) o (List.mem_eraseDups.mp ho),
        fun ended => absurd ended not_exists_ok⟩

/-- Assembling the markup reports each place once. -/
theorem assemble_diagnoses (read : (readIndex t s.indexPath).Gives source) (n : Notices) : ∃ told,
    Diagnoses t s (Comment.strip source) n ((assemble t s).run.run n).2
      (∃ markup, ((assemble t s).run.run n).1 = .ok markup) told := by
  have surveyed : missing ((Dependencies.surveyValid t s.componentsPath).run.run n).2 = missing n :=
    surveyValid_unmoved n
  rw [assemble, Noting.run_bind_of_ok ((readIndex_gives read).2 n), Failure.run_bind]
  rcases outcome : (Dependencies.surveyValid t s.componentsPath).run.run n with
    ⟨failure | d, n₁⟩ <;> rw [outcome] at surveyed
  · exact ⟨[], .of_same surveyed not_exists_ok⟩
  · obtain ⟨told, diagnoses⟩ := expandIndex_diagnoses (t := t) (s := s) source n₁
    exact ⟨told, diagnoses.between surveyed rfl id⟩

/-- **A run of the compilation reports each place once.** -/
theorem compile_tells (before : Session)
    (read : (readIndex before.tree s.indexPath).Gives source) : ∃ told,
    Diagnoses before.tree s (Comment.strip source) before.notices
      ((compile s).runOn before).2.notices
      (∃ path, ((compile s).runOn before).1 = .ok path) told := by
  obtain ⟨told, diagnoses⟩ :=
    assemble_diagnoses read (before.notices.push (.compiling s.sourceDir))
  have opening : missing (before.notices.push (.compiling s.sourceDir)) = missing before.notices :=
    missing_push rfl before.notices
  rcases outcome : (assemble before.tree s).run.run
    (before.notices.push (.compiling s.sourceDir)) with ⟨failure | markup, later⟩ <;>
    rw [outcome] at diagnoses
  · rw [compile, Job.runOn_bind, Job.runOn_note]
    dsimp only
    rw [Job.runOn_bind, Job.runOn_reading, outcome]
    exact ⟨told, diagnoses.between opening rfl fun ended => absurd ended not_exists_ok⟩
  · have rest : Unmoved (fun s => missing s.notices) (do
        let written ← Publication.publish { chunks := [markup] } s.targetPath
        Job.note (.wrote written)
        let copied ← Assets.copyAll s
        Job.note (.copied copied.length)
        Job.note .done
        return written : Job Path) :=
      (publish_unmoved _ _).bind fun written => (job_note_unmoved rfl).bind fun _ =>
        (copyAll_unmoved s).bind fun copied => (job_note_unmoved rfl).bind fun _ =>
          (job_note_unmoved rfl).bind fun _ => .pure written
    have run := compile_run_of_assembled before.notices outcome
    rw [show (⟨before.tree, before.notices⟩ : Session) = before from rfl] at run
    rw [run]
    exact ⟨told, diagnoses.between opening (rest ⟨before.tree, later⟩) fun _ => ⟨markup, rfl⟩⟩

end Runs

/-- **What a run reports about the root document, and when the number of the line is right.**  For
all settings and on every tree on which the root document can be read, a run reports each reference
without a fragment once for each place where it is written, and no other one; a run with a result
reports all of them.  A reference of the root document has one place in the file, comments and all.
The number reported for it leaves out the line feeds inside comments before it and counts the other
line ends before it that are outside the comments.  It is that of the line in the file exactly when
as many are left out as are counted. -/
theorem compile_diagnoses {s : Settings} {before : Session} {source : Text}
    (read : (readIndex before.tree s.indexPath).Gives source) :
    ∃ told D, Diagnoses before.tree s (Comment.strip source) before.notices
        ((compile s).runOn before).2.notices
        (∃ path, ((compile s).runOn before).1 = .ok path) told ∧
      Comment.Divides source D ∧
      ∀ o : Occurrence, o.owner = none →
        Written before.tree s.componentsPath (Comment.strip source) o →
        ∃ front, Stands D o front ∧ (∀ other, Stands D o other → other = front) ∧
          o.line + (within front).count '\n' =
            lineBehind (spelled front) + (outside front).countP endsOtherwise ∧
          (o.line = lineBehind (spelled front) ↔
            (within front).count '\n' = (outside front).countP endsOtherwise) := by
  obtain ⟨told, diagnoses⟩ := compile_tells before read
  obtain ⟨D, divides⟩ := Comment.exists_divides source
  obtain ⟨⟨bytes, whole⟩, -⟩ := readIndex_gives read
  have plain : '\r' ∉ outside D.marked := by
    intro inside
    have member := Comment.outside_subset _ inside
    rw [divides.spelled_eq] at member
    exact Stored.return_notMem_of_whole whole member
  refine ⟨told, D, diagnoses, divides, fun o owner written => ?_⟩
  have reference : o ∈ occurrences none (Text.splitLines (outside D.marked)) := by
    rw [divides.outside_eq]
    cases written with
    | document h => exact h
    | fragment _ _ h =>
        rw [Expansion.owner_of_mem_placed h] at owner
        cases owner
  obtain ⟨front, stands⟩ := Expansion.exists_stands reference plain
  exact ⟨front, stands, fun other stands' => stands'.unique stands, stands.line_eq plain,
    stands.line_eq_iff plain⟩

/-! ### Two root documents -/

/-- A reference on the third line, behind a comment on one line or on two. -/
def bareDocument (oneLine : Bool) : Text :=
  (if oneLine then "a\n<!-- b -->\n<app-x/>\n" else "<!-- a\nb -->\n<app-x/>\n").toList

/-- A site without components. -/
def bareTree (oneLine : Bool) : FileTree where
  entries := [(["components".toList], .directory), (["src".toList], .directory),
    (["src".toList, "index.html".toList], .file (Utf8.encode (bareDocument oneLine)))]

/-- The settings of the site. -/
def bareSettings : Settings := exampleSettings false

theorem readIndex_bare (oneLine : Bool) (n : Notices) :
    (readIndex (bareTree oneLine) bareSettings.indexPath).run.run n =
      (.ok (bareDocument oneLine), n) := by
  have read : (readIndex (bareTree oneLine) bareSettings.indexPath).Gives
      (bareDocument oneLine) := by
    cases oneLine <;> exact ⟨#[], by decide +kernel⟩
  exact (readIndex_gives read).2 n

/-- Behind the comment on one line the third line is reported, and behind the other one the
second. -/
theorem compile_bare (oneLine : Bool) : ∃ after,
    (compile bareSettings).runOn ⟨bareTree oneLine, #[]⟩ = (.ok bareSettings.targetPath, after) ∧
      missing after.notices = [.missingFragment ['x'] (if oneLine then 3 else 2)
        "index.html".toList (Path.ofText "src/../components".toList)] := by
  let start : Notices := #[.compiling (Path.ofText "src".toList)]
  have found : (Dependencies.survey (bareTree oneLine) bareSettings.componentsPath).run.run start =
      (.ok ⟨[]⟩, start) := by
    cases oneLine <;> exact Prod.ext (by decide +kernel) (by decide +kernel)
  have acyclic : (⟨[]⟩ : Dependencies).cyclic = [] := by
    simp [Dependencies.cyclic, Dependencies.components, Text.sort]
  have assembled : (assemble (bareTree oneLine) bareSettings).run.run start =
      (.ok (if oneLine then "a\n\n\n" else "\n\n").toList, start.push (.missingFragment ['x']
        (if oneLine then 3 else 2) "index.html".toList
        (Path.ofText "src/../components".toList))) := by
    rw [assemble_run_of_acyclic (readIndex_bare oneLine start) found acyclic]
    cases oneLine <;> exact Prod.ext (by decide +kernel) (by decide +kernel)
  refine ⟨_, (compile_run_of_assembled #[] assembled).trans (Prod.ext ?_ rfl), ?_⟩
  · cases oneLine <;> decide +kernel
  · cases oneLine <;> decide +kernel

/-- **Behind a comment on one line the number is right.** -/
theorem compile_diagnoses_aligned : ∃ after,
    (compile bareSettings).runOn ⟨bareTree true, #[]⟩ = (.ok bareSettings.targetPath, after) ∧
    missing after.notices =
      [.missingFragment ['x'] 3 "index.html".toList (Path.ofText "src/../components".toList)] ∧
    (readIndex (bareTree true) bareSettings.indexPath).Gives (bareDocument true) ∧
    ∃ told D, Diagnoses (bareTree true) bareSettings (Comment.strip (bareDocument true)) #[]
        after.notices (∃ path, (.ok bareSettings.targetPath : Except Failure Path) = .ok path)
        told ∧
      Comment.Divides (bareDocument true) D ∧
      ∀ o : Occurrence, o.owner = none →
        Written (bareTree true) bareSettings.componentsPath
          (Comment.strip (bareDocument true)) o →
        ∃ front, Stands D o front ∧ (∀ other, Stands D o other → other = front) ∧
          o.line + (within front).count '\n' =
            lineBehind (spelled front) + (outside front).countP endsOtherwise ∧
          (o.line = lineBehind (spelled front) ↔
            (within front).count '\n' = (outside front).countP endsOtherwise) := by
  obtain ⟨after, run, reported⟩ := compile_bare true
  let before : Session := ⟨bareTree true, #[]⟩
  have read : (readIndex before.tree bareSettings.indexPath).Gives (bareDocument true) :=
    ⟨#[], congrArg Prod.fst (readIndex_bare true #[])⟩
  have diagnosed := compile_diagnoses read
  rw [run] at diagnosed
  exact ⟨after, run, reported, read, diagnosed⟩

/-- The division of the document with the other comment. -/
def shiftedDivision : Comment.Division :=
  .comment [] " a\nb ".toList (.text "\n<app-x/>\n".toList)

/-- What stands before the reference. -/
def shiftedFront : List (Char × Bool) :=
  "<!-- a\nb -->".toList.map (·, false) ++ [('\n', true)]

/-- **Behind a comment on two lines the number is too small**: the run reports the second line, and
the reference stands on the third one. -/
theorem compile_misnumbers : ∃ after,
    (compile bareSettings).runOn ⟨bareTree false, #[]⟩ = (.ok bareSettings.targetPath, after) ∧
    missing after.notices =
      [.missingFragment ['x'] 2 "index.html".toList (Path.ofText "src/../components".toList)] ∧
    (readIndex (bareTree false) bareSettings.indexPath).Gives (bareDocument false) ∧
    Comment.Divides (bareDocument false) shiftedDivision ∧
    Stands shiftedDivision ⟨none, 0, 2, ['x']⟩ shiftedFront ∧
    lineBehind (spelled shiftedFront) = 3 := by
  obtain ⟨after, run, reported⟩ := compile_bare false
  refine ⟨after, run, reported, ⟨#[], congrArg Prod.fst (readIndex_bare false #[])⟩, ?_, ?_, ?_⟩
  · have opened : Text.cut? Comment.opening (bareDocument false) =
        some ([], " a\nb -->\n<app-x/>\n".toList) := rfl
    have closed : Text.cut? Comment.closing " a\nb -->\n<app-x/>\n".toList =
        some (" a\nb ".toList, "\n<app-x/>\n".toList) := rfl
    exact .comment (Text.cut?_eq_some_iff.mp opened) (Text.cut?_eq_some_iff.mp closed)
      (.rest (Comment.not_closed_of_split? rfl))
  · refine ⟨by decide, ⟨[.literal ['\n'], .literal []], [.literal ['\n']], ?_, ?_, ?_⟩,
      "app-x/>\n".toList.map (·, true), ?_⟩
    · rfl
    · decide
    · rfl
    · rfl
  · decide

end PageAssembly.Site
