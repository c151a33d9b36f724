import PageAssembly.Proofs.FileTree.Refusal
import PageAssembly.Proofs.Publication.Settled

/-!
# What a failed publication reports

A failure while a layout is published is reported under the name of the target, unless the clean-up
fails as well.  Then the failure of the clean-up is all that is reported.

## Main definitions

* `Publication.attempt` — the steps that may fail
* `Publication.handle` — what is done about a failure
* `Publication.HasRoom` — the temporary file can be written and removed
* `Publication.Reported` — what is reported for a failure, and what is left

## Main statements

* `Publication.runOn_publish` — publishing is the attempt with its handler
* `Publication.publish_reports` — what is reported for every failure of every step
* `Publication.publish_hides_target` — failures that do not name the target

### What hides the target

Nothing can be removed where a file stands on the way to the temporary file, where a directory
stands in its place, or where its name is too long.  These are trees and targets for which the
directories or the temporary file could not be made in the first place, so the cause and the failure
of the clean-up come from one obstacle, and only the second is seen.  Once the temporary file is
written, it can be removed.
-/

namespace PageAssembly.Publication

open FileTree Job

/-- **The steps that may fail**: the directories and the temporary file are made, and the temporary
file is moved over the target. -/
def attempt (source : ChunkSource) (target temporary : Path) : Job Unit := do
  prepare source target temporary
  Job.change (·.rename temporary target)

/-- **What is done about a failure.** -/
def handle (target temporary : Path) (failure : Failure) : Job Unit :=
  match faultOf? failure with
  | none => throw failure
  | some fault => do
    cleanUp temporary
    throw (.publishing target fault)

/-- **There is room for the temporary file**: its path can be followed, and no directory stands
there. -/
def HasRoom (temporary : Path) (t : FileTree) : Prop :=
  ∃ l e, t.find temporary = .ok (l, e) ∧ e ≠ some .directory

/-- The markup could not be read, or the temporary file could not be moved. -/
def IsLate (target temporary : Path) (cause : Failure) : Prop :=
  (∃ m, cause = .malformed m) ∨ ∃ o, cause = .files (.moving o temporary target)

/-- **What is known of a failure and the tree behind it**, compared with the tree before. -/
structure Cause (target temporary : Path) (t : FileTree) (cause : Failure) (t' : FileTree) :
    Prop where
  /-- A failure is passed on as it is when the temporary file's path is impossible. -/
  impossible : faultOf? cause = none → cause = .files .embeddedNul ∧ '\x00' ∈ temporary.text
  /-- Room that there was stays, and a late failure shows that there was room. -/
  room : HasRoom temporary t ∨ IsLate target temporary cause → HasRoom temporary t'

/-- **What is reported for a failure, and what is left.** -/
structure Reported (target temporary : Path) (t : FileTree) (cause failure : Failure)
    (t' : FileTree) : Prop where
  /-- No file is left at the temporary file's path. -/
  gone : ∀ content, t'.read temporary ≠ .ok content
  /-- The target is named, with the cause, exactly when there is nothing left to remove. -/
  documented : (∃ fault, faultOf? cause = some fault ∧ failure = .publishing target fault) ↔
    t'.remove temporary = .error (.reaching .notFound temporary)
  /-- Otherwise the failure is the one that a removal has. -/
  otherwise : t'.remove temporary ≠ .error (.reaching .notFound temporary) →
    ∃ f, failure = .files f ∧ t'.remove temporary = .error f ∧
      (f = .embeddedNul ∨
        ∃ o, f = .reaching o temporary ∧ (o = .notDirectory ∨ o = .isDirectory ∨ o = .nameTooLong))
  /-- The target is named when there was room for the temporary file, and for every late failure. -/
  named : HasRoom temporary t ∨ IsLate target temporary cause →
    ∃ fault, faultOf? cause = some fault ∧ failure = .publishing target fault

variable {t t₁ t' : FileTree} {source : ChunkSource} {target temporary : Path} {cause : Failure}

/-! ## The attempt -/

theorem faultOf?_files_eq_none {f : FileFailure} (h : faultOf? (.files f) = none) :
    f = .embeddedNul := by
  cases f with
  | embeddedNul => rfl
  | _ => cases h

/-- The temporary file stands in the directory of the target. -/
theorem eq_join_of_extend? (beside : target.extend? temporaryEnding = some temporary) :
    temporary = target.parent.join ⟨.relative, [target.name ++ temporaryEnding]⟩ := by
  rw [Path.extend?] at beside
  split at beside
  · cases beside
  · exact (Option.some.inj beside).symm

/-- A NUL character in the target's spelling is one in the temporary file's. -/
theorem nul_mem_temporary (beside : target.extend? temporaryEnding = some temporary)
    (h : '\x00' ∈ target.text) : '\x00' ∈ temporary.text := by
  rw [← Path.join_parent_name (parts_ne_nil_of_extend? beside), Path.nul_mem_text_iff,
    Path.join_name] at h
  rw [eq_join_of_extend? beside, Path.nul_mem_text_iff, Path.join_name]
  obtain ⟨part, member, nul⟩ := h
  rcases List.mem_append.mp member with before | last
  · exact ⟨part, List.mem_append_left _ before, nul⟩
  · obtain rfl := List.mem_singleton.mp last
    exact ⟨_, List.mem_append_right _ List.mem_cons_self, List.mem_append_left _ nul⟩

/-- A path that cannot be used is a cause when a NUL character in it is one in the temporary
file's. -/
theorem Cause.of_refusal {p : Path} {f : FileFailure} (refusal : Refusal p f)
    (nul : '\x00' ∈ p.text → '\x00' ∈ temporary.text)
    (room : HasRoom temporary t → HasRoom temporary t') :
    Cause target temporary t (.files f) t' where
  impossible uncaught := by
    cases refusal with
    | nul h => exact ⟨rfl, nul h⟩
    | obstacle o q => cases uncaught
  room := by
    rintro (before | ⟨m, same⟩ | ⟨o, same⟩)
    · exact room before
    · cases same
    · cases refusal <;> cases same

/-- Where there is room for the temporary file, the target's directory is there. -/
theorem HasRoom.makeDirectories (room : HasRoom temporary t)
    (beside : target.extend? temporaryEnding = some temporary) :
    t.makeDirectories target.parent = (t, .ok ()) := by
  obtain ⟨l, e, found, -⟩ := room
  rw [eq_join_of_extend? beside] at found
  exact makeDirectories_of_directory (find_of_find_join_name found)

/-- A file that was written leaves room. -/
theorem hasRoom_of_write {content : List UInt8} (h : t₁.write temporary content = .ok t') :
    HasRoom temporary t' := by
  obtain ⟨e, found⟩ := exists_find_of_write h
  have alters : Alters Set.univ ∅ t₁ t' := write_alters h (Set.mem_univ _)
  refine ⟨_, _, alters.find found, ?_⟩
  rw [lookup_of_write h]
  nofun

theorem fill_cause (chunks : List Text) (room : HasRoom temporary t₁) :
    (fill { chunks } temporary).Ends t₁ (fun _ => HasRoom temporary)
      (Cause target temporary t) := by
  rw [fill]
  refine .bind (P := fun _ => HasRoom temporary) (.change (fun _ h => hasRoom_of_write h)
    fun f h => .of_refusal (write_refusal h) id fun _ => room) fun _ t₂ written => ?_
  split
  · exact .throw ⟨fun uncaught => absurd uncaught (by simp [faultOf?]), fun _ => written⟩
  · next failed => cases failed
  · exact .forM_note _ _ written

theorem prepare_cause (chunks : List Text)
    (beside : target.extend? temporaryEnding = some temporary) :
    (prepare { chunks } target temporary).Ends t (fun _ => HasRoom temporary)
      (Cause target temporary t) := by
  have above (h : '\x00' ∈ target.parent.text) : '\x00' ∈ temporary.text :=
    nul_mem_temporary beside (Path.nul_mem_text_of_parent h)
  have kept (room : HasRoom temporary t) :
      HasRoom temporary (t.makeDirectories target.parent).1 := by
    rwa [room.makeDirectories beside]
  rw [prepare]
  refine .tree_bind (.setTree_bind ?_)
  refine .bind (P := fun _ t₁ => HasRoom temporary t → HasRoom temporary t₁)
    (.ofFiles (fun _ _ => kept) fun f h => .of_refusal (makeDirectories_refusal h) above kept)
    fun _ t₁ kept => ?_
  refine .bind (P := fun _ => HasRoom temporary) (.change (fun _ h => hasRoom_of_write h)
    fun f h => .of_refusal (write_refusal h) id kept) fun _ t₂ room => ?_
  exact fill_cause chunks room

theorem attempt_cause (chunks : List Text)
    (beside : target.extend? temporaryEnding = some temporary) :
    (attempt { chunks } target temporary).Ends t (fun _ _ => True)
      (Cause target temporary t) := by
  rw [attempt]
  refine .bind (prepare_cause chunks beside) fun _ t₁ room => ?_
  refine .change (fun _ _ => trivial) fun f h => ⟨fun uncaught => ?_, fun _ => room⟩
  obtain rfl := faultOf?_files_eq_none uncaught
  rcases rename_error h with ⟨-, here | there⟩ | ⟨o, same⟩
  · exact ⟨rfl, here⟩
  · exact ⟨rfl, nul_mem_temporary beside there⟩
  · cases same

/-! ## The handler -/

theorem runOn_cleanUp (temporary : Path) (s : Session) :
    (cleanUp temporary).runOn s = match s.tree.remove temporary with
      | .ok t => (.ok (), ⟨t, s.notices⟩)
      | .error (.reaching .notFound _) => (.ok (), s)
      | .error f => (.error (.files f), s) := by
  show (match s.tree.remove temporary with
    | .ok t => setTree t
    | .error (.reaching .notFound _) => pure ()
    | .error f => throw (.files f) : Job Unit).runOn s = _
  split <;> rfl

theorem runOn_handle (target temporary : Path) (cause : Failure) (s : Session) :
    (handle target temporary cause).runOn s = match faultOf? cause with
      | none => (.error cause, s)
      | some fault => match (cleanUp temporary).runOn s with
        | (.ok _, s') => (.error (.publishing target fault), s')
        | (.error failure, s') => (.error failure, s') := by
  rw [handle]
  split
  · rfl
  · rw [runOn_bind]
    rcases (cleanUp temporary).runOn s with ⟨_ | _, _⟩ <;> rfl

/-- When nothing is left to remove, the target is named. -/
theorem Reported.of_gone {fault : PublishingFault} (caught : faultOf? cause = some fault)
    (gone : t'.remove temporary = .error (.reaching .notFound temporary)) :
    Reported target temporary t cause (.publishing target fault) t' where
  gone := read_of_remove_error gone
  documented := ⟨fun _ => gone, fun _ => ⟨fault, caught, rfl⟩⟩
  otherwise left := absurd gone left
  named _ := ⟨fault, caught, rfl⟩

/-- When the removal fails, its failure takes the place of the cause. -/
theorem Reported.of_refused {f : FileFailure} (known : Cause target temporary t cause t')
    (refused : t'.remove temporary = .error f) (other : f ≠ .reaching .notFound temporary) :
    Reported target temporary t cause (.files f) t' where
  gone := read_of_remove_error refused
  documented := by
    rw [refused, Except.error.injEq]
    exact ⟨fun ⟨_, _, same⟩ => (nomatch same), fun same => absurd same other⟩
  otherwise _ := ⟨f, rfl, refused, (remove_error refused).resolve_left other⟩
  named why := by
    obtain ⟨l, e, found, noDirectory⟩ := known.room why
    rw [remove, found] at refused
    split at refused <;> simp_all

/-- **What is reported for a failure with a known cause.** -/
theorem handle_reports {s : Session} (known : Cause target temporary t cause s.tree) :
    ∃ failure t', (handle target temporary cause).runOn s = (.error failure, ⟨t', s.notices⟩) ∧
      Reported target temporary t cause failure t' := by
  rw [runOn_handle]
  cases caught : faultOf? cause with
  | none =>
      obtain ⟨rfl, nul⟩ := known.impossible caught
      exact ⟨_, s.tree, rfl, .of_refused known (remove_of_nul nul) (by simp)⟩
  | some fault =>
      simp only [runOn_cleanUp]
      cases removal : s.tree.remove temporary with
      | ok t' => exact ⟨_, t', rfl, .of_gone caught (remove_remove removal)⟩
      | error f =>
          rcases remove_error removal with rfl | rfl | ⟨o, rfl, obstacle⟩
          · exact ⟨_, s.tree, rfl, .of_gone caught removal⟩
          · exact ⟨_, s.tree, rfl, .of_refused known removal (by simp)⟩
          · rcases obstacle with rfl | rfl | rfl <;>
              exact ⟨_, s.tree, rfl, .of_refused known removal (by simp)⟩

/-- **Publishing is the attempt with its handler.** -/
theorem runOn_publish (source : ChunkSource)
    (beside : target.extend? temporaryEnding = some temporary) (s : Session) :
    (publish source target).runOn s = match (attempt source target temporary).runOn s with
      | (.ok _, s') => (.ok target, s')
      | (.error cause, s') =>
        (handle target temporary cause >>= fun _ => pure target).runOn s' := by
  rw [publish]
  simp only [beside]
  show (tryCatch (attempt source target temporary) (handle target temporary) >>= fun _ =>
    pure target : Job Path).runOn s = _
  rw [runOn_bind, runOn_tryCatch]
  rcases (attempt source target temporary).runOn s with ⟨cause | _, s'⟩
  · exact (runOn_bind _ _ _).symm
  · rfl

/-- **What is reported for every failure**, on every tree, for every target with a name and every
list of chunks.  Publishing succeeds when all steps do.  When one of them fails, no file is left at
the temporary file's path, and the failure names the target exactly when the removal has nothing
left to do; otherwise it is the failure of the removal.  The target is named whenever there was room
for the temporary file, and whenever the markup cannot be read or the move fails. -/
theorem publish_reports (chunks : List Text) {target temporary : Path}
    (beside : target.extend? temporaryEnding = some temporary) (s : Session) :
    match (attempt { chunks } target temporary).runOn s with
      | (.ok _, s') => (publish { chunks } target).runOn s = (.ok target, s')
      | (.error cause, s') => ∃ failure t',
        (publish { chunks } target).runOn s = (.error failure, ⟨t', s'.notices⟩) ∧
          Reported target temporary s.tree cause failure t' := by
  have ends := attempt_cause (t := s.tree) chunks beside s.notices
  rw [runOn_publish _ beside]
  rcases outcome : (attempt { chunks } target temporary).runOn s with ⟨cause | _, s'⟩
  · rw [outcome] at ends
    obtain ⟨failure, t', run, reported⟩ := handle_reports ends
    refine ⟨failure, t', ?_, reported⟩
    simp only [runOn_bind, run]
  · rfl

/-- A directory stands at the target: the move fails, the target is named, and the temporary file is
gone. -/
theorem publish_reports_occupied :
    let target := Path.ofText ['o']
    let temporary := Path.ofText ['o', '.', 't', 'm', 'p']
    let s : Session := ⟨⟨[([['o']], .directory)], []⟩, #[]⟩
    target.extend? temporaryEnding = some temporary ∧
      (attempt { chunks := [['x']] } target temporary).runOn s =
        (.error (.files (.moving .isDirectory temporary target)),
          ((attempt { chunks := [['x']] } target temporary).runOn s).2) ∧
      ∃ fault, ((publish { chunks := [['x']] } target).runOn s).1 =
        .error (.publishing target fault) := by
  intro target temporary s
  have beside : target.extend? temporaryEnding = some temporary := by decide
  have moving : ((attempt { chunks := [['x']] } target temporary).runOn s).1 =
      .error (.files (.moving .isDirectory temporary target)) := by decide +kernel
  have run : (attempt { chunks := [['x']] } target temporary).runOn s =
      (.error (.files (.moving .isDirectory temporary target)),
        ((attempt { chunks := [['x']] } target temporary).runOn s).2) := by
    rw [← moving]
  have reports := publish_reports [['x']] beside s
  rw [run] at reports
  obtain ⟨failure, t', published, reported⟩ := reports
  obtain ⟨fault, -, rfl⟩ := reported.named (Or.inr (Or.inr ⟨_, rfl⟩))
  exact ⟨beside, run, fault, by rw [published]⟩

/-- **Failures that do not name the target.**  A file stands where the target's directory is to be
made, or a directory where the temporary file is to be written.  The step fails, and so does the
removal. -/
theorem publish_hides_target :
    let blocked : Session := ⟨⟨[([['a']], .file [120])], []⟩, #[]⟩
    let occupied : Session := ⟨⟨[([['o', '.', 't', 'm', 'p']], .directory)], []⟩, #[]⟩
    ((attempt { chunks := [['x']] } (Path.ofText ['a', '/', 'o'])
        (Path.ofText ['a', '/', 'o', '.', 't', 'm', 'p'])).runOn blocked).1 =
        .error (.files (.reaching .exists (Path.ofText ['a']))) ∧
      ((publish { chunks := [['x']] } (Path.ofText ['a', '/', 'o'])).runOn blocked).1 =
        .error (.files (.reaching .notDirectory
          (Path.ofText ['a', '/', 'o', '.', 't', 'm', 'p']))) ∧
      ((attempt { chunks := [['x']] } (Path.ofText ['o'])
        (Path.ofText ['o', '.', 't', 'm', 'p'])).runOn occupied).1 =
        .error (.files (.reaching .isDirectory (Path.ofText ['o', '.', 't', 'm', 'p']))) ∧
      ((publish { chunks := [['x']] } (Path.ofText ['o'])).runOn occupied).1 =
        .error (.files (.reaching .isDirectory (Path.ofText ['o', '.', 't', 'm', 'p']))) := by
  refine ⟨?_, ?_, ?_, ?_⟩ <;> decide +kernel

end PageAssembly.Publication
