import PageAssembly.Proofs.FileTree.Entry
import PageAssembly.Proofs.Job.Settled
import PageAssembly.Proofs.Publication.Outcome

/-!
# Published markup stays published

Publishing the same markup again puts the same bytes where they stand.

## Main definitions

* `Publication.Standing` — a layout stands at its target, with room for the temporary file

## Main statements

* `Publication.publish_standing` — what was published stands
* `Publication.Standing.publish_again` — publishing what stands changes nothing
-/

namespace PageAssembly

/-- A path is the path before its last part, and that part. -/
theorem Path.join_parent_name {p : Path} (h : p.parts ≠ []) :
    p.parent.join ⟨.relative, [p.name]⟩ = p := by
  rw [join_name, parent, name, List.getLastD_eq_getLast?, List.getLast?_eq_some_getLast h,
    Option.getD_some, List.dropLast_concat_getLast]

namespace Publication

open FileTree Job

/-- **The layout stands at the target**, and nothing where the temporary file is to be written. -/
structure Standing (source : ChunkSource) (target : Path) (t : FileTree) : Prop where
  /-- The source ends of its own accord. -/
  complete : source.failure = none
  /-- All of it can be read as markup. -/
  readable : ∃ tags, source.layout.ending = .ok tags
  /-- The target is no way up. -/
  named : target.name ≠ Path.up
  /-- The target's path leads to the layout. -/
  content : t.read target = .ok (Utf8.encode source.layout.text)
  /-- The temporary file's path leads to where nothing stands. -/
  free : ∃ temporary l, target.extend? temporaryEnding = some temporary ∧
    t.find temporary = .ok (l, none)

variable {t t' t₁ t₂ : FileTree} {source : ChunkSource} {target temporary : Path}

/-! ## After publishing -/

/-- Where the move was possible, the temporary file's path can be followed. -/
theorem exists_find_of_rename (beside : target.extend? temporaryEnding = some temporary)
    (before : Underway target t t₁)
    (gathered : Gathered source (temporaryPlace target t.workingDirectory) t₁)
    (moved : t₁.rename temporary target = .ok t₂) :
    target.name ≠ Path.up ∧ ∃ e, t₂.find temporary =
      .ok (temporaryPlace target t.workingDirectory, e) := by
  have place := resolve_temporary_underway beside before
  have file : t₁.lookup (temporary.resolve t₁.workingDirectory) ≠ some .directory := by
    rw [place, gathered.content]
    nofun
  have moves : Alters Set.univ ∅ t₁ t₂ :=
    rename_alters moved file (Set.mem_univ _) (Set.mem_univ _)
  rw [rename] at moved
  split at moved
  any_goals cases moved
  next l e m standing foundSource foundTarget =>
    split at moved
    · cases moved
    · next proper =>
        refine ⟨proper, t₂.lookup l, ?_⟩
        rw [moves.find foundSource, ← place, (find_eq_ok foundSource).1]

/-- **What was published stands.** -/
theorem publish_standing (source : ChunkSource) (target : Path) (t : FileTree) :
    (publish source target).Ends t (fun _ t' => Standing source target t') fun _ _ => True := by
  rw [publish]
  split
  · exact .throw trivial
  · next temporary beside =>
      refine .bind (P := fun _ => Standing source target) (.tryCatch (E := fun _ _ => True) ?_
        fun failure t₁ _ => ?_) fun _ _ standing => .pure standing
      · refine .bind ((prepare_ends source beside).mono (fun _ _ h => h) fun _ _ _ => trivial) ?_
        rintro - t₁ ⟨before, gathered⟩
        refine .change (fun t₂ moved => ?_) fun _ _ => trivial
        have published := published_of_rename beside before gathered moved
        obtain ⟨named, e, found⟩ := exists_find_of_rename beside before gathered moved
        have nothing := (find_eq_ok found).2
        rw [published.temporary] at nothing
        exact ⟨published.complete, published.readable, named, published.content,
          temporary, _, beside, nothing ▸ found⟩
      · have anyEnd {α : Type} (job : Job α) : job.Ends t₁ (fun _ _ => True) fun _ _ => True := by
          intro notices
          split <;> trivial
        split
        · exact .throw trivial
        · exact .bind (anyEnd _) fun _ _ _ => .throw trivial

/-- What stands keeps standing while its two places are left alone. -/
theorem Standing.of_alters {touched : Set Location} (standing : Standing source target t)
    (alters : Alters touched ∅ t t') (spared : target.resolve t.workingDirectory ∉ touched)
    (room : temporaryPlace target t.workingDirectory ∉ touched) : Standing source target t' where
  complete := standing.complete
  readable := standing.readable
  named := standing.named
  content := alters.read spared standing.content
  free := by
    obtain ⟨temporary, m, beside, found⟩ := standing.free
    obtain ⟨rfl, nothing⟩ := find_eq_ok found
    have later := alters.find found
    rw [resolve_temporary beside, alters.lookup_eq room, ← resolve_temporary beside,
      ← nothing] at later
    exact ⟨temporary, _, beside, later⟩

/-! ## Publishing again -/

/-- What is written to a file, or where nothing stands, is there. -/
theorem write_of_find {p : Path} {l : Location} {e : Option Entry} {content : List UInt8}
    (found : t.find p = .ok (l, e)) (h : e = none ∨ ∃ old, e = some (.file old)) :
    t.write p content = .ok (t.put l (.file content)) := by
  rw [write, found]
  rcases h with rfl | ⟨old, rfl⟩ <;> rfl

/-- A change that is possible is made. -/
theorem change_of_ok {op : FileTree → Except FileFailure FileTree} {Q : Unit → FileTree → Prop}
    {E : Failure → FileTree → Prop} (made : op t = .ok t') (h : Q () t') :
    (Job.change op).Ends t Q E :=
  .change (fun _ ok => Except.ok.inj (made.symm.trans ok) ▸ h)
    fun _ failed => nomatch made.symm.trans failed

/-- A file is moved over another one. -/
theorem rename_of_find {p q : Path} {l m : Location} {e : Entry} {old : List UInt8}
    (foundSource : t.find p = .ok (m, some e)) (foundTarget : t.find q = .ok (l, some (.file old)))
    (named : q.name ≠ Path.up) : t.rename p q = .ok ((t.erase m).put l e) := by
  rw [rename, foundSource, foundTarget]
  simp [named]

/-- What is known before the move: the temporary file holds the layout, and nothing else is new. -/
def Refilled (source : ChunkSource) (m : Location) (t t' : FileTree) : Prop :=
  Alters {m} ∅ t t' ∧ t'.lookup m = some (.file (Utf8.encode source.layout.text))

/-- The temporary file can be written again. -/
theorem Standing.prepare_again (standing : Standing source target t)
    (beside : target.extend? temporaryEnding = some temporary) {m : Location}
    (free : t.find temporary = .ok (m, none)) :
    (prepare source target temporary).Ends t (fun _ => Refilled source m t) fun _ _ => False := by
  obtain ⟨tags, readable⟩ := standing.readable
  have content := standing.content
  rw [← Path.join_parent_name (parts_ne_nil_of_extend? beside)] at content
  have directory := find_of_read_join_name content
  have place := (find_eq_ok free).1
  rw [prepare]
  refine .tree_bind ?_
  simp only [makeDirectories_of_directory directory]
  refine .setTree_bind (.bind (P := fun _ t' => t = t') (.pure rfl) ?_)
  rintro - _ rfl
  have first : t.write temporary [] = .ok (t.put m (.file [])) := write_of_find free (.inl rfl)
  have opened : Alters {m} ∅ t (t.put m (.file [])) := write_alters first (place ▸ rfl)
  refine .bind (P := fun _ t' => t' = t.put m (.file [])) (change_of_ok first rfl) ?_
  rintro - _ rfl
  have root : m ≠ [] := ne_nil_of_lookup_eq_none (find_eq_ok free).2.symm
  have empty := opened.find free
  rw [lookup_put t root, if_pos rfl] at empty
  have second : (t.put m (.file [])).write temporary (Utf8.encode source.layout.text) =
      .ok ((t.put m (.file [])).put m (.file (Utf8.encode source.layout.text))) :=
    write_of_find empty (.inr ⟨[], rfl⟩)
  have filled : Refilled source m t
      ((t.put m (.file [])).put m (.file (Utf8.encode source.layout.text))) :=
    ⟨opened.trans (write_alters second (place ▸ rfl)), by rw [lookup_put _ root, if_pos rfl]⟩
  rw [fill]
  refine .bind (P := fun _ => Refilled source m t) (change_of_ok second filled) ?_
  rintro - t₂ refilled
  simp only [readable, standing.complete]
  exact .forM_note _ _ refilled

/-- **Publishing what stands changes nothing.** -/
theorem Standing.publish_again (standing : Standing source target t) :
    (publish source target).Ends t (fun path t' => path = target ∧ Unaltered t t')
      fun _ _ => False := by
  obtain ⟨temporary, m, beside, free⟩ := standing.free
  obtain ⟨l, found⟩ := read_eq_ok_iff.mp standing.content
  rw [publish]
  simp only [beside]
  refine .bind (P := fun _ => Unaltered t) (.tryCatch (E := fun _ _ => False)
    (.bind (standing.prepare_again beside free) ?_) fun _ _ h => h.elim)
    fun _ _ same => .pure ⟨rfl, same⟩
  rintro - t₁ ⟨alters, content⟩
  have nothing := (find_eq_ok free).2
  have stands := (find_eq_ok found).2
  have apart : l ≠ m := by
    rintro rfl
    rw [← nothing] at stands
    cases stands
  have source₁ := alters.find free
  have target₁ := alters.find found
  rw [content] at source₁
  rw [alters.lookup_eq apart, ← stands] at target₁
  have file : t₁.lookup (temporary.resolve t₁.workingDirectory) ≠ some .directory := by
    rw [← (find_eq_ok source₁).1, content]
    simp
  have moved := rename_of_find source₁ target₁ standing.named
  have moves : Alters Set.univ ∅ t₁ _ := rename_alters moved file (Set.mem_univ _) (Set.mem_univ _)
  have both := (alters.mono (Set.subset_univ _) Set.Subset.rfl).trans moves
  refine change_of_ok moved (.of_lookup both fun k => ?_)
  -- the layout is back at its place, and nothing is left of the temporary file
  have rootSource : m ≠ [] := ne_nil_of_lookup_eq_none nothing.symm
  have rootTarget : l ≠ [] := ne_nil_of_lookup_eq_file stands.symm
  rw [lookup_put _ rootTarget, lookup_erase _ rootSource]
  split
  · next same => rw [same, ← stands]
  · split
    · next same => rw [same, ← nothing]
    · next other => exact alters.lookup_eq other

end Publication

end PageAssembly
