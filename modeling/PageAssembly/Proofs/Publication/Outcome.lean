import PageAssembly.Proofs.FileTree.Alteration
import PageAssembly.Proofs.Job.Ends
import PageAssembly.Publication

/-!
# All or nothing

Publishing ends in one of two states.  Either the whole layout stands at the target and the temporary
file is gone, or the target holds what it held before.

## Main definitions

* `Publication.temporaryPlace` — the place of the temporary file
* `Publication.Published`, `Publication.Unpublished` — the two states

## Main statements

* `Publication.publish_all_or_nothing` — every run ends in one of the two

### Two places and the way to them

Until the move, every step writes at the temporary file's place or makes a directory on the way to
it, and the two places are different.  So nothing that stands at the target can be lost before the
move; and when the move is possible, it is the last step that fails or succeeds.

A target whose path leads through its own place by `..` asks for a directory where the file is to
stand.  The directory is made, and the move fails.
-/

namespace PageAssembly.Publication

open FileTree

/-- **The place of the temporary file**: beside the target, under a longer name. -/
def temporaryPlace (target : Path) (workingDirectory : Location) : Location :=
  target.parent.resolve workingDirectory ++ [target.name ++ temporaryEnding]

/-- **What stands after a layout was published**, compared with the tree before. -/
structure Published (source : ChunkSource) (target : Path) (t t' : FileTree) : Prop where
  /-- The source ended of its own accord. -/
  complete : source.failure = none
  /-- All of it could be read as markup. -/
  readable : ∃ tags, source.layout.ending = .ok tags
  /-- The target's place has a file with the layout. -/
  place : t'.lookup (target.resolve t.workingDirectory) =
    some (.file (Utf8.encode source.layout.text))
  /-- The target's path leads there. -/
  content : t'.read target = .ok (Utf8.encode source.layout.text)
  /-- The temporary file is gone. -/
  temporary : t'.lookup (temporaryPlace target t.workingDirectory) = none
  /-- Besides the two places nothing is altered but the way to the target. -/
  alters : Alters {target.resolve t.workingDirectory, temporaryPlace target t.workingDirectory}
    (target.parent.stations t.workingDirectory) t t'

/-- **What stands after nothing was published**, compared with the tree before. -/
structure Unpublished (target : Path) (t t' : FileTree) : Prop where
  /-- Whatever stood at the target's place is still there. -/
  kept : ∀ e, t.lookup (target.resolve t.workingDirectory) = some e →
    t'.lookup (target.resolve t.workingDirectory) = some e
  /-- The target's path leads to it as before. -/
  leads : ∀ l e, t.find target = .ok (l, some e) → t'.find target = .ok (l, some e)
  /-- Where nothing stood, nothing stands, or a directory on the way of a path that leads through
  its own place by `..`. -/
  nothing : t.lookup (target.resolve t.workingDirectory) = none →
    t'.lookup (target.resolve t.workingDirectory) = none ∨
      (t'.lookup (target.resolve t.workingDirectory) = some .directory ∧ Path.up ∈ target.parts ∧
        target.resolve t.workingDirectory ∈ target.parent.stations t.workingDirectory)
  /-- Besides the temporary file's place nothing is altered but the way to the target. -/
  alters : Alters {temporaryPlace target t.workingDirectory}
    (target.parent.stations t.workingDirectory) t t'

/-! ## The two places -/

section Places

variable {target temporary : Path}

theorem resolve_temporary (h : target.extend? temporaryEnding = some temporary)
    (workingDirectory : Location) :
    temporary.resolve workingDirectory = temporaryPlace target workingDirectory := by
  rw [Path.extend?] at h
  split at h
  · cases h
  · obtain rfl := Option.some.inj h
    have longer : target.name ++ temporaryEnding ≠ Path.up := by
      intro same
      have := congrArg List.length same
      simp [temporaryEnding, Path.up] at this
    show (target.parts.dropLast ++ [target.name ++ temporaryEnding]).foldl Path.follow _ = _
    rw [List.foldl_append, List.foldl_cons, Path.follow, if_neg longer]
    rfl

theorem parts_ne_nil_of_extend? (h : target.extend? temporaryEnding = some temporary) :
    target.parts ≠ [] := by
  rw [Path.extend?] at h
  split at h
  · cases h
  · next named => exact Path.parts_ne_nil_of_name (by simpa using named)

/-- The two places are different. -/
theorem resolve_ne_temporaryPlace (h : target.parts ≠ []) (workingDirectory : Location) :
    target.resolve workingDirectory ≠ temporaryPlace target workingDirectory := by
  rw [Path.resolve_eq_follow h, temporaryPlace, Path.follow]
  intro same
  split at same
  · have := congrArg List.length same
    simp at this
  · have := congrArg List.length (List.singleton_inj.mp (List.append_cancel_left same))
    simp [temporaryEnding] at this

end Places

/-! ## The steps -/

variable {t t₁ t₂ : FileTree} {source : ChunkSource} {target temporary : Path}
  {touched made : Set Location}

/-- **What was written when the temporary file is complete.** -/
structure Gathered (source : ChunkSource) (l : Location) (t : FileTree) : Prop where
  /-- The source ended of its own accord. -/
  complete : source.failure = none
  /-- All of it could be read as markup. -/
  readable : ∃ tags, source.layout.ending = .ok tags
  /-- The layout stands in a file. -/
  content : t.lookup l = some (.file (Utf8.encode source.layout.text))

/-- **What may have changed before the move**: the temporary file's place, and the way to it. -/
abbrev Underway (target : Path) (t : FileTree) : FileTree → Prop :=
  Alters {temporaryPlace target t.workingDirectory} (target.parent.stations t.workingDirectory) t

section Steps

variable (beside : target.extend? temporaryEnding = some temporary) (before : Underway target t t₁)

include beside before

theorem resolve_temporary_underway :
    temporary.resolve t₁.workingDirectory = temporaryPlace target t.workingDirectory := by
  rw [resolve_temporary beside, before.workingDirectory]

/-- Writing the temporary file leaves everything underway. -/
theorem write_underway {content : List UInt8} (h : t₁.write temporary content = .ok t₂) :
    Underway target t t₂ ∧
      t₂.lookup (temporaryPlace target t.workingDirectory) = some (.file content) := by
  have place := resolve_temporary_underway beside before
  exact ⟨before.trans (write_alters h place), place ▸ lookup_of_write h⟩

/-- The temporary file is complete, or it is underway. -/
theorem fill_ends (source : ChunkSource) : (fill source temporary).Ends t₁
    (fun _ t' => Underway target t t' ∧
      Gathered source (temporaryPlace target t.workingDirectory) t')
    fun _ => Underway target t := by
  rw [fill]
  refine .bind (P := fun _ t' => Underway target t t' ∧
    t'.lookup (temporaryPlace target t.workingDirectory) =
      some (.file (Utf8.encode source.layout.text)))
    (.change (fun t₂ h => write_underway beside before h) fun _ _ => before) ?_
  rintro - t₂ ⟨underway, content⟩
  split
  · exact .throw underway
  · exact .throw underway
  · next tags readable complete =>
      exact .forM_note _ _ ⟨underway, complete, ⟨tags, readable⟩, content⟩

/-- Removing the temporary file leaves everything underway. -/
theorem cleanUp_ends : (cleanUp temporary).Ends t₁ (fun _ => Underway target t)
    fun _ => Underway target t := by
  rw [cleanUp]
  refine .tree_bind ?_
  split
  · next t₂ removed =>
      have place := resolve_temporary_underway beside before
      exact .setTree (before.trans (remove_alters removed place))
  · exact .pure before
  · exact .throw before

/-- **When the complete temporary file can be moved, the layout is published.** -/
theorem published_of_rename
    (gathered : Gathered source (temporaryPlace target t.workingDirectory) t₁)
    (moved : t₁.rename temporary target = .ok t₂) : Published source target t t₂ := by
  have here : target.resolve t₁.workingDirectory = target.resolve t.workingDirectory := by
    rw [before.workingDirectory]
  have place := resolve_temporary_underway beside before
  have apart := resolve_ne_temporaryPlace (parts_ne_nil_of_extend? beside) t.workingDirectory
  have file : t₁.lookup (temporary.resolve t₁.workingDirectory) ≠ some .directory := by
    rw [place, gathered.content]
    nofun
  have moves : Alters {target.resolve t.workingDirectory, temporaryPlace target t.workingDirectory}
      (target.parent.stations t.workingDirectory) t₁ t₂ :=
    rename_alters moved file (by rw [place]; exact .inr rfl) (by rw [here]; exact .inl rfl)
  obtain ⟨new, old⟩ := lookup_of_rename moved file (by rwa [here, place])
  rw [here, place, gathered.content] at new
  rw [place] at old
  obtain ⟨-, -, ⟨_, leads⟩, -⟩ := rename_eq_ok moved
  rw [here] at leads
  refine ⟨gathered.complete, gathered.readable, new, ?_, old, ?_⟩
  · exact read_eq_ok_iff.mpr ⟨_, new ▸ moves.find leads⟩
  · exact (before.mono (fun m (same : m = _) => .inr same) Set.Subset.rfl).trans moves

/-- While everything is underway, the target holds what it held. -/
theorem unpublished_of_underway : Unpublished target t t₁ := by
  have named := parts_ne_nil_of_extend? beside
  have apart := resolve_ne_temporaryPlace named t.workingDirectory
  refine ⟨fun e h => before.lookup_of_some apart h, fun l e found => ?_, fun none => ?_, before⟩
  · obtain ⟨rfl, entry⟩ := find_eq_ok found
    rw [before.find found, before.lookup_of_some apart entry.symm]
  · rcases before.elsewhere _ apart with same | ⟨passed, -, new⟩
    · exact .inl (same.trans none)
    · refine .inr ⟨new, ?_, passed⟩
      by_contra plain
      exact Path.resolve_not_mem_stations_parent plain named t.workingDirectory passed

end Steps

/-- Before the move everything is underway. -/
theorem prepare_ends (source : ChunkSource)
    (beside : target.extend? temporaryEnding = some temporary) :
    (prepare source target temporary).Ends t
      (fun _ t' => Underway target t t' ∧
        Gathered source (temporaryPlace target t.workingDirectory) t')
      fun _ => Underway target t := by
  have directories : Underway target t (t.makeDirectories target.parent).1 :=
    makeDirectories_alters t target.parent Set.Subset.rfl
  rw [prepare]
  refine .tree_bind (.setTree_bind ?_)
  refine .bind (P := fun _ => Underway target t) (.ofFiles (fun _ _ => directories)
    fun _ _ => directories) fun _ t₁ before => ?_
  refine .bind (P := fun _ => Underway target t) (.change (fun t₂ h => ?_) fun _ _ => before) ?_
  · exact (write_underway beside before h).1
  · exact fun _ t₂ before => fill_ends beside before source

/-- Every end of publishing is one of two. -/
theorem publish_ends (source : ChunkSource) (target : Path) (t : FileTree) :
    (publish source target).Ends t (fun path t' => path = target ∧ Published source target t t')
      fun _ => Unpublished target t := by
  rw [publish]
  split
  · next nameless =>
      exact .throw ⟨fun _ h => h, fun _ _ h => h, .inl, .refl _ _ _⟩
  · next temporary beside =>
      refine .bind (P := fun _ => Published source target t) (.tryCatch
        (E := fun _ => Underway target t) ?_ fun failure t₁ before => ?_) fun _ t' published => ?_
      · refine .bind (prepare_ends source beside) ?_
        rintro - t₁ ⟨before, gathered⟩
        exact .change (fun t₂ moved => published_of_rename beside before gathered moved)
          fun _ _ => before
      · split
        · exact .throw (unpublished_of_underway beside before)
        · refine .bind (P := fun _ => Underway target t) ?_ fun _ t₂ after => ?_
          · exact (cleanUp_ends beside before).mono (fun _ _ after => after)
              fun _ _ after => unpublished_of_underway beside after
          · exact .throw (unpublished_of_underway beside after)
      · exact .pure ⟨rfl, published⟩

/-- **Publishing is all or nothing**, on every tree and for every source, one that breaks off with
any failure among them.  A result is the target, at which the layout of the whole source stands, and
the temporary file is gone; after any failure the target holds what it held.  Nothing else is new
but the temporary file and directories on the way to the target. -/
theorem publish_all_or_nothing (source : ChunkSource) (target : Path) (s : Session) :
    match (publish source target).runOn s with
      | (.ok path, s') => path = target ∧ Published source target s.tree s'.tree
      | (.error _, s') => Unpublished target s.tree s'.tree := by
  have ends := publish_ends source target s.tree s.notices
  rcases outcome : (publish source target).runOn s with ⟨failure | path, s'⟩
  · rw [outcome] at ends
    exact ends
  · rw [outcome] at ends
    exact ends

/-- A target whose path leads through its own place: nothing stood there, publishing fails, and
afterwards a directory stands there. -/
theorem publish_leaves_directory :
    let target := Path.ofText "y/../y".toList
    let run := (publish { chunks := [['x']] } target).runOn ⟨{}, #[]⟩
    (∃ failure, run.1 = .error failure) ∧ ({} : FileTree).lookup (target.resolve []) = none ∧
      run.2.tree.lookup (target.resolve []) = some .directory := by
  refine ⟨⟨.publishing (Path.ofText "y/../y".toList) (.file (.moving .isDirectory
    (Path.ofText "y/../y.tmp".toList) (Path.ofText "y/../y".toList))), ?_⟩, ?_, ?_⟩
  · decide +kernel
  · rfl
  · decide +kernel

end PageAssembly.Publication
