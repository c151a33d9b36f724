import PageAssembly.Proofs.Assets.Reach
import PageAssembly.Proofs.FileTree.Entry
import PageAssembly.Proofs.Job.Settled

/-!
# Copied assets stay copied

Copying the assets a second time repeats every success and every failure of the first time and
changes nothing.

## Main definitions

* `Assets.Refuses` — a directory that cannot be opened, now and later
* `Assets.byKind` — a choice by what stands at an entry
* `Assets.copyBelow` — what copying a directory does with one of its entries
* `Assets.copySelected` — what is done with an entry of the source directory that is not left out

## Main statements

* `Assets.copyFile_settles`, `Assets.copyLevels_settles` — copying a file and a directory
* `Assets.copyAll_settles` — copying all assets

### Sources and targets apart

A copy looks at its source and at its target and touches the target.  It is settled because no
target is at or below a source, and no two entries of a directory have targets in each other.  What
could not be copied is in the way a second time, since nothing but the target was touched.
-/

namespace PageAssembly.Assets

open FileTree Job

variable {t : FileTree} {source target : Path} {touched footprint : Set Location}

/-! ## Files -/

/-- **Copying a file settles.** -/
theorem copyFile_settles (hs : t.Enters source) (ht : t.Enters target) :
    (copyFile source target).Settles {target.resolve t.workingDirectory}
      {source.resolve t.workingDirectory, target.resolve t.workingDirectory} t := by
  rw [Settles, copyFile]
  refine .tree_bind ?_
  split
  · next t₁ copied =>
      have alters : Alters {target.resolve t.workingDirectory} ∅ t t₁ := copy_alters copied rfl
      refine .setTree_bind (.pure ⟨alters, fun t₂ keeps => ?_⟩)
      obtain ⟨content, foundSource, foundTarget, apart, other, rfl⟩ := copy_eq_ok copied
      -- the source holds what it held, and the target has it too
      have source₂ := keeps.find (alters.find foundSource)
      rw [keeps.lookup (.inl rfl), alters.lookup_eq apart, ← (find_eq_ok foundSource).2] at source₂
      have standing : t₂.lookup (target.resolve t₂.workingDirectory) = some (.file content) := by
        rw [keeps.workingDirectory, workingDirectory_put, keeps.lookup (.inr rfl),
          lookup_put t (ne_nil_of_lookup other), if_pos rfl]
      have target₂ := keeps.find (alters.find foundTarget)
      rw [← show target.resolve t₂.workingDirectory = target.resolve t.workingDirectory by
        rw [keeps.workingDirectory, workingDirectory_put], standing] at target₂
      have again := copy_of_files source₂ target₂ (by rwa [keeps.workingDirectory])
      refine .tree_bind ?_
      simp only [again]
      exact .setTree_bind (.pure (.put target standing nofun))
  · next f failed =>
      split
      · exact .throw_bind trivial
      · next system =>
          refine .note_bind _ (.pure ⟨.refl _ _ t, fun t₁ keeps => ?_⟩)
          have again : t₁.copy source target = .error f :=
            copy_of_find_eq (hs.find_eq keeps (keeps.lookup (.inl rfl)))
              (ht.find_eq keeps (keeps.lookup (.inr rfl))) failed
          refine .tree_bind ?_
          simp only [again, if_neg system]
          exact .note_bind _ (.pure (.refl _ _ t₁))

/-! ## Directories -/

/-- Where both directories are there, opening gives the names in the first one and makes nothing. -/
theorem openDirectory_of_directories {l m : Location}
    (foundSource : t.find source = .ok (l, some .directory))
    (foundTarget : t.find target = .ok (m, some .directory)) :
    (openDirectory source target).Ends t (fun names t' => names = some (t.names l) ∧ t' = t)
      fun _ _ => False := by
  rw [openDirectory]
  refine .tree_bind ?_
  simp only [list_of_directory foundSource]
  refine .tree_bind ?_
  simp only [makeDirectories_of_directory foundTarget]
  exact .setTree_bind (.pure ⟨rfl, rfl⟩)

/-- **A directory that cannot be opened**: nothing is changed, now and later. -/
def Refuses (source target : Path) (t : FileTree) : Prop :=
  ∀ t', Keeps {source.resolve t.workingDirectory, target.resolve t.workingDirectory} t t' →
    (openDirectory source target).Ends t' (fun names t'' => names = none ∧ t'' = t')
      fun _ _ => False

/-- A directory whose target cannot be made is refused. -/
theorem refuses_of_makeDirectories (hs : t.Enters source) (ht : t.Enters target)
    {names : List Text} {f : FileFailure} (listed : t.list source = .ok names)
    (failed : (t.makeDirectories target).2 = .error f) (system : f.isSystem = true) :
    Refuses source target t := by
  intro t' keeps
  have again : t'.makeDirectories target = (t', .error f) := by
    refine (ht.makeDirectories_error failed).2 t' (ht.of_alters keeps) ?_
    rw [keeps.workingDirectory, keeps.lookup (.inr rfl)]
  obtain ⟨l, found, -⟩ := list_eq_ok listed
  have foundAgain : t'.find source = .ok (l, some .directory) :=
    (hs.find_eq keeps (keeps.lookup (.inl rfl))).trans found
  rw [openDirectory]
  refine .tree_bind ?_
  simp only [list_of_directory foundAgain]
  refine .tree_bind ?_
  simp only [again]
  refine .setTree_bind ?_
  simp only [system]
  exact .note_bind _ (.pure ⟨rfl, rfl⟩)

/-- A directory that cannot be listed is refused. -/
theorem refuses_of_list (hs : t.Enters source) {f : FileFailure}
    (failed : t.list source = .error f) (system : f.isSystem = true) :
    Refuses source target t := by
  intro t' keeps
  have again : t'.list source = .error f :=
    list_of_find_eq (hs.find_eq keeps (keeps.lookup (.inl rfl))) failed
  rw [openDirectory]
  refine .tree_bind ?_
  simp only [again, system]
  exact .note_bind _ (.pure ⟨rfl, rfl⟩)

/-- **Opening a directory settles**: it is refused for good, or both directories are there. -/
theorem openDirectory_settles (hs : t.Enters source) (ht : t.Enters target) :
    (openDirectory source target).Ends t (fun names t' =>
      (names = none ∧ t' = t ∧ Refuses source target t) ∨
      (names = some (t.names (source.resolve t.workingDirectory)) ∧
        Alters {target.resolve t.workingDirectory} ∅ t t' ∧
        t'.find source = .ok (source.resolve t.workingDirectory, some .directory) ∧
        t'.find target = .ok (target.resolve t.workingDirectory, some .directory)))
      fun _ _ => True := by
  rw [openDirectory]
  refine .tree_bind ?_
  split
  · next f failed =>
      split
      · exact .throw_bind trivial
      · next system =>
          have refused : Refuses source target t :=
            refuses_of_list hs failed (by simpa using system)
          exact .note_bind _ (.pure (.inl ⟨rfl, rfl, refused⟩))
  · next names listed =>
      refine .tree_bind ?_
      obtain ⟨l, found, rfl⟩ := list_eq_ok listed
      obtain ⟨rfl, entry⟩ := find_eq_ok found
      refine .setTree_bind ?_
      split
      · next f failed =>
          have same := (ht.makeDirectories_error failed).1
          split
          · exact .throw_bind trivial
          · next system =>
              have refused := refuses_of_makeDirectories hs ht listed failed (by simpa using system)
              exact .note_bind _ (.pure (.inl ⟨rfl, same, refused⟩))
      · next made =>
          obtain ⟨alters, foundTarget⟩ := ht.makeDirectories_ok made
          exact .pure (.inr ⟨rfl, alters, alters.find_directory found, foundTarget⟩)

/-! ## What stands at an entry -/

/-- Does one thing where a directory stands and another thing elsewhere. -/
def byKind (entry : Path) (onDirectory onFile : Job (List Path)) : Job (List Path) := do
  if ← Job.ofFiles ((← Job.tree).isDirectory entry) then onDirectory else onFile

/-- **A choice by what stands at an entry settles** when both sides do, the entry is looked at and
not touched. -/
theorem byKind_settles {entry : Path} {onDirectory onFile : Job (List Path)}
    (enters : t.Enters entry) (looked : entry.resolve t.workingDirectory ∈ footprint)
    (untouched : entry.resolve t.workingDirectory ∉ touched)
    (directory : t.isDirectory entry = .ok true → onDirectory.Settles touched footprint t)
    (file : t.isDirectory entry = .ok false → onFile.Settles touched footprint t) :
    (byKind entry onDirectory onFile).Settles touched footprint t := by
  -- the same stands at the entry in every tree that the choice is settled on
  have again {t₁ t₂ : FileTree} {b : Bool} (asked : t.isDirectory entry = .ok b)
      (alters : Alters touched ∅ t t₁) (keeps : Keeps footprint t₁ t₂) :
      t₂.isDirectory entry = .ok b := by
    have first := enters.find_eq alters (alters.lookup_eq untouched)
    have second := (enters.of_alters alters).find_eq keeps
      (keeps.lookup (by rwa [alters.workingDirectory]))
    rw [isDirectory_of_find_eq (second.trans first), asked]
  rw [Settles, byKind]
  refine .tree_bind (.bind (.ofFiles (Q := fun b t' => t.isDirectory entry = .ok b ∧ t' = t)
    (fun b h => ⟨h, rfl⟩) fun _ _ => trivial) ?_)
  rintro b _ ⟨asked, rfl⟩
  cases b with
  | true =>
      refine Ends.mono (directory asked)
        (fun _ t₁ ⟨alters, settled⟩ => ⟨alters, fun t₂ keeps => ?_⟩) fun _ _ _ => trivial
      refine .tree_bind ?_
      rw [again asked alters keeps]
      exact settled t₂ keeps
  | false =>
      refine Ends.mono (file asked)
        (fun _ t₁ ⟨alters, settled⟩ => ⟨alters, fun t₂ keeps => ?_⟩) fun _ _ _ => trivial
      refine .tree_bind ?_
      rw [again asked alters keeps]
      exact settled t₂ keeps

/-! ## Directories with all that is below them -/

section Subtrees

variable {l m : Location} {a b : Text}

theorem mem_subtree_self (l : Location) : l ∈ subtree l := List.prefix_rfl

theorem subtree_concat_subset (l : Location) (a : Text) : subtree (l ++ [a]) ⊆ subtree l :=
  fun _ h => (List.prefix_append l [a]).trans h

/-- The subtrees of two entries of one directory are apart. -/
theorem disjoint_subtree_concat (l : Location) (h : a ≠ b) :
    Disjoint (subtree (l ++ [a])) (subtree (l ++ [b])) := by
  refine Set.disjoint_left.mpr fun m (ha : _ <+: m) (hb : _ <+: m) => h ?_
  have same := List.prefix_of_prefix_length_le ha hb (by simp)
  exact (List.cons.inj (List.append_cancel_left (same.eq_of_length (by simp)))).1

end Subtrees

/-- What copying a directory does with the entry of that name. -/
def copyBelow (levels : Nat) (source target : Path) (name : Text) : Job (List Path) :=
  byKind (source.join ⟨.relative, [name]⟩)
    (copyLevels levels (source.join ⟨.relative, [name]⟩) (target.join ⟨.relative, [name]⟩))
    (do return (← copyFile (source.join ⟨.relative, [name]⟩)
      (target.join ⟨.relative, [name]⟩)).toList)

theorem copyLevels_succ (levels : Nat) (source target : Path) :
    copyLevels (levels + 1) source target = (do
      let names ← openDirectory source target
      let copied ← (names.getD []).mapM (copyBelow levels source target)
      return copied.flatten) := rfl

section Below

variable {l m : Location} {name : Text}

/-- An entry of a directory has its place below the directory's. -/
theorem resolve_entry {p : Path} (found : t.find p = .ok (l, some .directory))
    (proper : name ≠ Path.up) :
    (p.join ⟨.relative, [name]⟩).resolve t.workingDirectory = l ++ [name] := by
  rw [Path.resolve_join_name p proper, (find_eq_ok found).1]

/-- Copying a file of a directory settles in the places of that name. -/
theorem copyFile_settles_below (foundSource : t.find source = .ok (l, some .directory))
    (foundTarget : t.find target = .ok (m, some .directory)) (proper : name ≠ Path.up) :
    (do return (← copyFile (source.join ⟨.relative, [name]⟩)
      (target.join ⟨.relative, [name]⟩)).toList : Job (List Path)).Settles {m ++ [name]}
        {l ++ [name], m ++ [name]} t := by
  have settles := copyFile_settles (enters_join_name foundSource proper)
    (enters_join_name foundTarget proper)
  rw [resolve_entry foundSource proper, resolve_entry foundTarget proper] at settles
  exact settles.map _

/-- What is done with an entry settles when copying directories of fewer levels does. -/
theorem copyBelow_settles {levels : Nat} (foundSource : t.find source = .ok (l, some .directory))
    (foundTarget : t.find target = .ok (m, some .directory)) (proper : name ≠ Path.up)
    (apart : Disjoint (subtree m) (subtree l))
    (nested : (copyLevels levels (source.join ⟨.relative, [name]⟩)
      (target.join ⟨.relative, [name]⟩)).Settles (subtree (m ++ [name]))
        (subtree (l ++ [name]) ∪ subtree (m ++ [name])) t) :
    (copyBelow levels source target name).Settles (subtree (m ++ [name]))
      (subtree (l ++ [name]) ∪ subtree (m ++ [name])) t := by
  have enters := enters_join_name foundSource proper
  refine byKind_settles enters ?_ ?_ (fun _ => nested) fun _ => ?_
  · rw [resolve_entry foundSource proper]
    exact .inl (mem_subtree_self _)
  · rw [resolve_entry foundSource proper]
    exact fun h => Set.disjoint_left.mp apart (subtree_concat_subset m name h)
      (subtree_concat_subset l name (mem_subtree_self _))
  · refine (copyFile_settles_below foundSource foundTarget proper).mono ?_ ?_
    · rintro _ rfl
      exact mem_subtree_self _
    · rintro _ (rfl | rfl)
      · exact .inl (mem_subtree_self _)
      · exact .inr (mem_subtree_self _)

end Below

/-- Two entries of directories that are apart do not disturb each other. -/
theorem disjoint_entries {l m : Location} {a b : Text} (apart : Disjoint (subtree m) (subtree l))
    (h : a ≠ b) :
    Disjoint (subtree (m ++ [b])) (subtree (l ++ [a]) ∪ subtree (m ++ [a])) := by
  refine Set.disjoint_left.mpr ?_
  rintro k hb (ha | ha)
  · exact Set.disjoint_left.mp apart (subtree_concat_subset m b hb) (subtree_concat_subset l a ha)
  · exact Set.disjoint_left.mp (disjoint_subtree_concat m h) ha hb

/-- The entries of a directory settle together. -/
theorem copyNames_settles {levels : Nat} {l m : Location} {names : List Text}
    (foundSource : t.find source = .ok (l, some .directory))
    (foundTarget : t.find target = .ok (m, some .directory))
    (proper : ∀ name ∈ names, name ≠ Path.up) (apart : Disjoint (subtree m) (subtree l))
    (nested : ∀ name ∈ names, ∀ t', Alters Set.univ ∅ t t' →
      (copyLevels levels (source.join ⟨.relative, [name]⟩)
        (target.join ⟨.relative, [name]⟩)).Settles (subtree (m ++ [name]))
          (subtree (l ++ [name]) ∪ subtree (m ++ [name])) t') :
    (names.mapM (copyBelow levels source target)).Ends t (fun _ t' =>
      Alters (subtree m) ∅ t t' ∧ ∀ name ∈ names, (copyBelow levels source target name).Settled
        (subtree (l ++ [name]) ∪ subtree (m ++ [name])) t') fun _ _ => True := by
  have step (name : Text) (hname : name ∈ names) (t' : FileTree)
      (between : Alters Set.univ ∅ t t') :
      (copyBelow levels source target name).Settles (subtree (m ++ [name]))
        (subtree (l ++ [name]) ∪ subtree (m ++ [name])) t' :=
    copyBelow_settles (between.find_directory foundSource) (between.find_directory foundTarget)
      (proper name hname) apart (nested name hname t' between)
  refine Ends.mono (mapM_settles names step fun a _ b _ other => disjoint_entries apart other) ?_
    fun _ _ h => h
  · rintro _ t' ⟨alters, settled⟩
    refine ⟨alters.mono ?_ Set.Subset.rfl, settled⟩
    rintro k ⟨name, -, hk⟩
    exact subtree_concat_subset m name hk

/-- A directory is settled when its entries are. -/
theorem settled_copyLevels_succ {levels : Nat} {l m : Location}
    (foundSource : t.find source = .ok (l, some .directory))
    (foundTarget : t.find target = .ok (m, some .directory))
    (settled : ∀ name ∈ t.names l, (copyBelow levels source target name).Settled
      (subtree (l ++ [name]) ∪ subtree (m ++ [name])) t) :
    (copyLevels (levels + 1) source target).Settled (subtree l ∪ subtree m) t := by
  intro t' keeps
  rw [copyLevels_succ]
  refine .bind (openDirectory_of_directories (keeps.find_directory foundSource)
    (keeps.find_directory foundTarget)) ?_
  rintro _ _ ⟨rfl, rfl⟩
  refine .bind (mapM_unaltered _ fun name hname t₂ between => settled name ?_ t₂ ?_)
    fun _ _ after => .pure after
  · rw [Option.getD_some, mem_names_iff,
      keeps.lookup (.inl (subtree_concat_subset l name (mem_subtree_self _)))] at hname
    exact mem_names_iff.mpr hname
  · have inside := Set.union_subset_union (subtree_concat_subset l name)
      (subtree_concat_subset m name)
    exact (keeps.of_subset inside).unaltered between

/-- A directory that cannot be opened is settled. -/
theorem Refuses.settled (refused : Refuses source target t) (levels : Nat) :
    (copyLevels (levels + 1) source target).Settled (subtree (source.resolve t.workingDirectory) ∪
      subtree (target.resolve t.workingDirectory)) t := by
  intro t₁ keeps
  rw [copyLevels_succ]
  refine .bind (refused t₁ (keeps.of_subset ?_)) ?_
  · rintro _ (rfl | rfl)
    · exact .inl (mem_subtree_self _)
    · exact .inr (mem_subtree_self _)
  · rintro _ _ ⟨rfl, rfl⟩
    exact .pure (.refl _ _ _)

/-- **Copying a directory settles**, with all that is below it. -/
theorem copyLevels_settles (levels : Nat) (plain : t.Plain) (hs : t.Enters source)
    (ht : t.Enters target) (apart : Disjoint (subtree (target.resolve t.workingDirectory))
      (subtree (source.resolve t.workingDirectory))) :
    (copyLevels levels source target).Settles (subtree (target.resolve t.workingDirectory))
      (subtree (source.resolve t.workingDirectory) ∪
        subtree (target.resolve t.workingDirectory)) t := by
  induction levels generalizing source target t with
  | zero =>
      refine .note_bind _ (.pure ⟨.refl _ _ t, fun t' _ => ?_⟩)
      exact .note_bind _ (.pure (.refl _ _ t'))
  | succ levels ih =>
      rw [Settles, copyLevels_succ]
      refine .bind (openDirectory_settles hs ht) ?_
      rintro names t₁ (⟨rfl, rfl, refused⟩ | ⟨rfl, opened, foundSource, foundTarget⟩)
      · exact .pure ⟨.refl _ _ t₁, refused.settled levels⟩
      · generalize source.resolve t.workingDirectory = l at *
        generalize target.resolve t.workingDirectory = m at *
        have proper (name : Text) (h : name ∈ t.names l) : name ≠ Path.up := plain.of_mem_names h
        refine .bind (copyNames_settles foundSource foundTarget proper apart ?_) ?_
        · intro name hname t' between
          have source' := between.find_directory foundSource
          have target' := between.find_directory foundTarget
          have nested := ih (between.plain (opened.plain plain))
            (enters_join_name source' (proper name hname))
            (enters_join_name target' (proper name hname))
          rw [resolve_entry source' (proper name hname),
            resolve_entry target' (proper name hname)] at nested
          exact nested (apart.mono (subtree_concat_subset m name) (subtree_concat_subset l name))
        · rintro copied t₂ ⟨alters, settled⟩
          have whole : Alters (subtree m) ∅ t t₂ := by
            refine (opened.mono ?_ Set.Subset.rfl).trans alters
            rintro _ rfl
            exact mem_subtree_self _
          refine .pure ⟨whole, settled_copyLevels_succ (alters.find_directory foundSource)
            (alters.find_directory foundTarget) fun name hname => ?_⟩
          refine settled name (mem_names_iff.mpr ?_)
          rwa [mem_names_iff, whole.lookup_eq] at hname
          exact fun h => Set.disjoint_left.mp apart h
            (subtree_concat_subset l name (mem_subtree_self _))

/-! ## All assets -/

section Entries

variable {s : Settings} {l m : Location} {name : Text}

theorem placeOf_eq {t t' : FileTree} (same : t'.workingDirectory = t.workingDirectory) (p : Path) :
    placeOf t' p = placeOf t p := by
  rw [placeOf, placeOf, same]

/-- Copying a directory that is an entry settles in the subtrees of that name. -/
theorem copyDirectory_settles_below (plain : t.Plain)
    (foundSource : t.find source = .ok (l, some .directory))
    (foundTarget : t.find target = .ok (m, some .directory)) (proper : name ≠ Path.up)
    (apart : Disjoint (subtree (m ++ [name])) (subtree (l ++ [name]))) :
    (copyDirectory (source.join ⟨.relative, [name]⟩) (target.join ⟨.relative, [name]⟩)).Settles
      (subtree (m ++ [name])) (subtree (l ++ [name]) ∪ subtree (m ++ [name])) t := by
  have here := resolve_entry foundSource proper
  have there := resolve_entry foundTarget proper
  have settles := copyLevels_settles pathLimit plain (enters_join_name foundSource proper)
    (enters_join_name foundTarget proper) (by rwa [here, there])
  rwa [here, there] at settles

/-- What is done with an entry that is not left out. -/
def copySelected (s : Settings) (name : Text) : Job (List Path) :=
  byKind (s.sourceDir.join ⟨.relative, [name]⟩)
    (if s.assetKeywords.any (Text.contains name) then
      copyDirectory (s.sourceDir.join ⟨.relative, [name]⟩) (s.outputDir.join ⟨.relative, [name]⟩)
    else return [])
    (if s.assetSuffixes.any (Text.endsWith name) then do
      return (← copyFile (s.sourceDir.join ⟨.relative, [name]⟩)
        (s.outputDir.join ⟨.relative, [name]⟩)).toList
    else return [])

/-- The places that copying an entry looks at. -/
def looked (source output : Location) (name : Text) : Set Location :=
  (subtree (source ++ [name]) \ subtree output) ∪ subtree (output ++ [name])

/-- **Copying a selected entry settles.** -/
theorem copySelected_settles (plain : t.Plain)
    (foundSource : t.find s.sourceDir = .ok (l, some .directory))
    (foundOutput : t.find s.outputDir = .ok (m, some .directory)) (proper : name ≠ Path.up)
    (kept : entryPlace s.sourceDir t.workingDirectory name ∉
      [s.indexPath, s.componentsPath, s.outputDir].map (Path.resolve t.workingDirectory))
    (apart : Disjoint (subtree m) (subtree (l ++ [name]))) :
    (copySelected s name).Settles {k | Selects s t.workingDirectory name k} (looked l m name)
      t := by
  have here := resolve_entry foundSource proper
  have place : entryPlace s.outputDir t.workingDirectory name = m ++ [name] := by
    rw [entryPlace, (find_eq_ok foundOutput).1]
  have outside {k : Location} (h : k ∈ subtree (l ++ [name])) : k ∈ looked l m name :=
    .inl ⟨h, fun inside => Set.disjoint_left.mp apart inside h⟩
  refine byKind_settles (enters_join_name foundSource proper) ?_ ?_ (fun _ => ?_) fun _ => ?_
  · rw [here]
    exact outside (mem_subtree_self _)
  · rw [here]
    intro selects
    have inside := mem_subtree_of_selects selects
    rw [place] at inside
    exact Set.disjoint_left.mp apart (subtree_concat_subset m name inside) (mem_subtree_self _)
  · split
    · next keyword =>
        refine (copyDirectory_settles_below plain foundSource foundOutput proper
          (apart.mono_left (subtree_concat_subset m name))).mono
            (fun k hk => ⟨kept, .inl ⟨keyword, place ▸ hk⟩⟩) ?_
        rintro k (hk | hk)
        · exact outside hk
        · exact .inr hk
    · exact .pure []
  · split
    · next ending =>
        refine (copyFile_settles_below foundSource foundOutput proper).mono ?_ ?_
        · rintro _ rfl
          exact ⟨kept, .inr ⟨ending, place.symm⟩⟩
        · rintro _ (rfl | rfl)
          · exact outside (mem_subtree_self _)
          · exact .inr (mem_subtree_self _)
    · exact .pure []

/-- **Copying an entry settles**, whether it is left out or not. -/
theorem copyEntry_settles (plain : t.Plain)
    (foundSource : t.find s.sourceDir = .ok (l, some .directory))
    (foundOutput : t.find s.outputDir = .ok (m, some .directory)) (proper : name ≠ Path.up)
    (excluded : List Location) (left : excluded =
      [s.indexPath, s.componentsPath, s.outputDir].map (Path.resolve t.workingDirectory))
    (apart : l ++ [name] ∉ excluded → Disjoint (subtree m) (subtree (l ++ [name]))) :
    (copyEntry s excluded name).Settles {k | Selects s t.workingDirectory name k}
      (looked l m name) t := by
  have place : entryPlace s.sourceDir t.workingDirectory name = l ++ [name] := by
    rw [entryPlace, (find_eq_ok foundSource).1]
  -- the entry's place is the same in every tree that is started on
  have again {t' : FileTree} (same : t'.workingDirectory = t.workingDirectory) {k : Location}
      (placed : placeOf t (s.sourceDir.join ⟨.relative, [name]⟩) = .ok k) :
      placeOf t' (s.sourceDir.join ⟨.relative, [name]⟩) = .ok k :=
    (placeOf_eq same _).trans placed
  rw [Settles, copyEntry]
  refine .tree_bind (.bind (.ofFiles (Q := fun k t' =>
    placeOf t (s.sourceDir.join ⟨.relative, [name]⟩) = .ok k ∧ t' = t) (fun k h => ⟨h, rfl⟩)
    fun _ _ => trivial) ?_)
  rintro k _ ⟨placed, rfl⟩
  obtain rfl : k = l ++ [name] := by
    rw [placeOf_eq_ok placed, resolve_entry foundSource proper]
  split
  · next leftOut =>
      refine .pure ⟨.refl _ _ _, fun t₁ keeps => .tree_bind ?_⟩
      refine .ofFiles_bind (again keeps.workingDirectory placed) ?_
      rw [if_pos leftOut]
      exact .pure (.refl _ _ _)
  · next kept =>
      have settles := copySelected_settles plain foundSource foundOutput proper
        (by rwa [place, ← left]) (apart kept)
      refine Ends.mono (Ends.of_tree_bind settles) ?_ fun _ _ h => h
      rintro copied t₁ ⟨alters, settled⟩
      refine ⟨alters, fun t₂ keeps => .tree_bind ?_⟩
      refine .ofFiles_bind (again (keeps.workingDirectory.trans alters.workingDirectory) placed) ?_
      rw [if_neg kept]
      exact (settled _ keeps).of_tree_bind

/-- What entries of other names are copied to is not looked at for an entry. -/
theorem disjoint_looked {a b : Text} (h : a ≠ b)
    (place : s.outputDir.resolve t.workingDirectory = m) :
    Disjoint {k | Selects s t.workingDirectory b k} (looked l m a) := by
  refine Set.disjoint_left.mpr fun k selects look => ?_
  have inside := mem_subtree_of_selects selects
  rw [entryPlace, place] at inside
  rcases look with ⟨-, outside⟩ | look
  · exact outside (subtree_concat_subset m b inside)
  · exact Set.disjoint_left.mp (disjoint_subtree_concat m h) look inside

/-- The places that are left out. -/
theorem placesOf_eq_ok {paths : List Path} {places : List Location}
    (h : paths.mapM (placeOf t) = .ok places) :
    places = paths.map (Path.resolve t.workingDirectory) := by
  induction paths generalizing places with
  | nil => exact (Except.ok.inj h).symm
  | cons p paths ih =>
      rw [List.mapM_cons] at h
      cases first : placeOf t p with
      | error f =>
          rw [first] at h
          cases h
      | ok k =>
          cases rest : paths.mapM (placeOf t) with
          | error f =>
              rw [first, rest] at h
              cases h
          | ok ks =>
              rw [first, rest] at h
              rw [← Except.ok.inj h, List.map_cons, placeOf_eq_ok first, ih rest]

/-- Copying assets into another directory brings no name into the source directory and takes none
away. -/
theorem mem_names_of_alters {t₁ : FileTree}
    (foundOutput : t.find s.outputDir = .ok (m, some .directory)) (outside : l ∉ subtree m)
    (alters : Alters {k | ∃ name ∈ t.names l, Selects s t.workingDirectory name k} ∅ t t₁) :
    name ∈ t₁.names l ↔ name ∈ t.names l := by
  rw [mem_names_iff, mem_names_iff, alters.lookup_eq]
  rintro ⟨other, -, selects⟩
  have inside : m ++ [other] <+: l ++ [name] := by
    rw [(find_eq_ok foundOutput).1]
    exact mem_subtree_of_selects selects
  exact outside (List.prefix_of_prefix_length_le ((List.prefix_append m [other]).trans inside)
    (List.prefix_append l [name]) (by simpa using inside.length_le))

/-- **Copying all assets settles.**  The source directory and the output directory are there, the
source directory is not in the output directory, and whatever is not left out lies apart from it. -/
theorem copyAll_settles (plain : t.Plain)
    (foundSource : t.find s.sourceDir = .ok (l, some .directory))
    (foundOutput : t.find s.outputDir = .ok (m, some .directory)) (outside : l ∉ subtree m)
    (apart : ∀ name, l ++ [name] ∉ [s.indexPath, s.componentsPath, s.outputDir].map
      (Path.resolve t.workingDirectory) → Disjoint (subtree m) (subtree (l ++ [name]))) :
    (copyAll s).Settles {k | ∃ name ∈ t.names l, Selects s t.workingDirectory name k} Set.univ
      t := by
  have proper (name : Text) (h : name ∈ t.names l) : name ≠ Path.up := plain.of_mem_names h
  rw [Settles, copyAll]
  refine .tree_bind ?_
  simp only [mapM_ofFiles, list_of_directory foundSource]
  refine .bind (.ofFiles (Q := fun places t' =>
    [s.indexPath, s.componentsPath, s.outputDir].mapM (placeOf t) = .ok places ∧ t = t')
    (fun _ h => ⟨h, rfl⟩) fun _ _ => trivial) ?_
  rintro places _ ⟨placed, rfl⟩
  have left := placesOf_eq_ok placed
  have step (name : Text) (hname : name ∈ t.names l) (t' : FileTree)
      (between : Alters Set.univ ∅ t t') : (copyEntry s places name).Settles
        {k | Selects s t.workingDirectory name k} (looked l m name) t' := by
    have settles := copyEntry_settles (between.plain plain) (between.find_directory foundSource)
      (between.find_directory foundOutput) (proper name hname) places
      (by rw [left, between.workingDirectory]) fun kept => apart name (left ▸ kept)
    rwa [between.workingDirectory] at settles
  refine .bind (mapM_settles (t.names l) step fun a _ b _ other =>
    disjoint_looked other (find_eq_ok foundOutput).1.symm) ?_
  rintro copied t₁ ⟨alters, settled⟩
  refine .pure ⟨alters, fun t₂ keeps => .tree_bind ?_⟩
  have same : t₂.workingDirectory = t.workingDirectory :=
    keeps.workingDirectory.trans alters.workingDirectory
  have placedAgain :
      [s.indexPath, s.componentsPath, s.outputDir].mapM (placeOf t₂) = .ok places := by
    rw [← placed]
    exact congrArg (List.mapM · _) (funext (placeOf_eq same))
  refine .ofFiles_bind placedAgain ?_
  simp only [list_of_directory (keeps.find_directory (alters.find_directory foundSource))]
  refine .bind (mapM_unaltered _ fun name hname t₃ between => settled name ?_ t₃
    ((keeps.of_subset (Set.subset_univ _)).unaltered between)) fun _ _ after => .pure after
  rw [mem_names_iff, keeps.lookup (Set.mem_univ _), ← mem_names_iff] at hname
  exact (mem_names_of_alters foundOutput outside alters).mp hname

end Entries

end PageAssembly.Assets
