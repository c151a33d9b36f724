import PageAssembly.Assets
import PageAssembly.Proofs.FileTree.Alteration
import PageAssembly.Proofs.Job.Ends

/-!
# What copying assets reaches

Copying writes at and below the places its targets mean.  It makes directories on the way there,
and it takes nothing away.

## Main definitions

* `Assets.subtree` — a place with all places below it
* `Assets.Mirror` — paths that were copied from where they would stand in the source
* `Assets.Selects`, `Assets.selected` — what copying entries of the source directory may reach

## Main statements

* `Assets.copyLevels_ends` — copying a directory alters the subtree of its target
* `Assets.copyAll_ends` — copying assets alters and gives what its selected entries reach

### Why names matter

The target of an entry is the directory's target with the entry's name behind it.  It lies below
the directory's target because the name is no `..`, in the tree as it was and in every tree on the
way, where files and directories that were just copied may be listed again.
-/

namespace PageAssembly.Assets

open FileTree

/-- A place with all places below it. -/
def subtree (l : Location) : Set Location := {m | l <+: m}

variable {t t₁ t₂ : FileTree} {source target : Path} {touched made : Set Location}

/-- **The source was copied to the target on the way**, in a tree that differs from the first one
in no more than the given places. -/
def CopiedOnce (touched made : Set Location) (t : FileTree) (source target : Path) : Prop :=
  ∃ t₁ t₂, Alters touched made t t₁ ∧ t₁.copy source target = .ok t₂

/-- **The paths mirror files of the source**: each of them is reached from the target by some of the
parts, and was copied from what the same parts reach from the source. -/
def Mirror (touched made : Set Location) (t : FileTree) (source target : Path)
    (parts : Set (List Text)) (copied : List Path) : Prop :=
  ∀ p ∈ copied, ∃ r ∈ parts, p = target.join ⟨.relative, r⟩ ∧
    CopiedOnce touched made t (source.join ⟨.relative, r⟩) p

namespace Mirror

variable {parts parts' : Set (List Text)}

theorem nil : Mirror touched made t source target parts [] :=
  fun _ h => absurd h List.not_mem_nil

theorem flatten {copied : List (List Path)}
    (h : ∀ each ∈ copied, Mirror touched made t source target parts each) :
    Mirror touched made t source target parts copied.flatten := by
  intro p hp
  obtain ⟨each, member, hp⟩ := List.mem_flatten.mp hp
  exact h each member p hp

/-- What mirrors an entry mirrors its directory. -/
theorem inside {name : Text} {copied : List Path}
    (h : Mirror touched made t (source.join ⟨.relative, [name]⟩) (target.join ⟨.relative, [name]⟩)
      parts copied) (hp : ∀ r ∈ parts, name :: r ∈ parts') :
    Mirror touched made t source target parts' copied := by
  intro p member
  obtain ⟨r, hr, same, once⟩ := h p member
  rw [Path.join_join_relative] at same once
  exact ⟨name :: r, hp r hr, same, once⟩

end Mirror

/-- Copying a file alters its target's place. -/
theorem copyFile_ends (before : Alters touched made t t₁)
    (h : target.resolve t.workingDirectory ∈ touched) :
    (copyFile source target).Ends t₁
      (fun copied t' => Alters touched made t t' ∧
        Mirror touched made t source target {[]} copied.toList)
      fun _ => Alters touched made t := by
  rw [copyFile]
  refine .tree_bind ?_
  split
  · next t₂ copied =>
      refine .setTree_bind (.pure ⟨before.trans (copy_alters copied ?_), fun p hp => ?_⟩)
      · rwa [before.workingDirectory]
      · obtain rfl := List.mem_singleton.mp hp
        refine ⟨[], rfl, (Path.join_relative_nil _).symm, t₁, t₂, before, ?_⟩
        rwa [Path.join_relative_nil]
  · next f failed =>
      split
      · exact .throw_bind before
      · exact .note_bind _ (.pure ⟨before, .nil⟩)

/-- Opening a directory makes its target and the directories before it. -/
theorem openDirectory_ends (plain : t.Plain) (before : Alters touched made t t₁)
    (h : target.stations t.workingDirectory ⊆ made) :
    (openDirectory source target).Ends t₁
      (fun names t' => Alters touched made t t' ∧ ∀ name ∈ names.getD [], name ≠ Path.up)
      fun _ => Alters touched made t := by
  have nothing : Alters touched made t t₁ ∧ ∀ name ∈ (none : Option (List Text)).getD [],
      name ≠ Path.up := ⟨before, fun name h => absurd h List.not_mem_nil⟩
  rw [openDirectory]
  refine .tree_bind ?_
  split
  · split
    · exact .throw_bind before
    · exact .note_bind _ (.pure nothing)
  · next names listed =>
      have after : Alters touched made t (t₁.makeDirectories target).1 :=
        before.trans (makeDirectories_alters t₁ target (by rwa [before.workingDirectory]))
      refine .tree_bind (.setTree_bind ?_)
      split
      · split
        · exact .throw_bind after
        · exact .note_bind _ (.pure ⟨after, nothing.2⟩)
      · exact .pure ⟨after, fun name h => (before.plain plain).of_list listed name h⟩

/-- The places that an entry's target passes are those of the directory's target and its own. -/
theorem stations_join_name {name : Text} (hn : name ≠ Path.up) (workingDirectory : Location)
    (hm : target.stations workingDirectory ∪ subtree (target.resolve workingDirectory) ⊆ made) :
    (target.join ⟨.relative, [name]⟩).stations workingDirectory ⊆ made := by
  rintro l ⟨parts, before, rfl⟩
  rcases List.prefix_concat_iff.mp before with rfl | before
  · refine hm (.inr ?_)
    show _ <+: (target.join ⟨.relative, [name]⟩).resolve workingDirectory
    rw [Path.resolve_join_name target hn]
    exact List.prefix_append _ _
  · exact hm (.inl ⟨parts, before, rfl⟩)

/-- **Copying a directory alters the subtree of its target**, however many levels it has, and what it
gives mirrors the directory. -/
theorem copyLevels_ends (levels : Nat) (plain : t.Plain) (before : Alters touched made t t₁)
    (ht : subtree (target.resolve t.workingDirectory) ⊆ touched)
    (hm : target.stations t.workingDirectory ∪ subtree (target.resolve t.workingDirectory) ⊆
      made) :
    (copyLevels levels source target).Ends t₁
      (fun copied t' => Alters touched made t t' ∧
        Mirror touched made t source target Set.univ copied)
      fun _ => Alters touched made t := by
  induction levels generalizing source target t₁ with
  | zero =>
      rw [copyLevels]
      exact .note_bind _ (.pure ⟨before, .nil⟩)
  | succ levels ih =>
      rw [copyLevels]
      refine .bind (openDirectory_ends plain before (Set.subset_union_left.trans hm)) ?_
      rintro names t₂ ⟨opened, proper⟩
      refine .bind (.mapM_each (G := Mirror touched made t source target Set.univ) _ opened
        fun name hname t₃ between => ?_) fun copied t₃ ⟨after, each⟩ => .pure ⟨after, .flatten each⟩
      have below : (target.join ⟨.relative, [name]⟩).resolve t.workingDirectory =
          target.resolve t.workingDirectory ++ [name] :=
        Path.resolve_join_name target (proper name hname) _
      have inner : subtree ((target.join ⟨.relative, [name]⟩).resolve t.workingDirectory) ⊆
          subtree (target.resolve t.workingDirectory) := by
        intro m (h : _ <+: m)
        rw [below] at h
        exact (List.prefix_append _ _).trans h
      refine .tree_bind (.bind (.ofFiles (Q := fun _ t' => Alters touched made t t')
        (fun _ _ => between) fun _ _ => between) fun isDirectory t₄ same => ?_)
      split
      · refine (ih same (inner.trans ht) (Set.union_subset ?_ ?_)).mono ?_ fun _ _ => id
        · exact stations_join_name (proper name hname) _ hm
        · exact inner.trans (Set.subset_union_right.trans hm)
        · exact fun _ _ ⟨after, mirror⟩ => ⟨after, mirror.inside fun _ _ => Set.mem_univ _⟩
      · refine .bind (copyFile_ends same (ht (inner List.prefix_rfl))) ?_
        exact fun _ _ ⟨after, mirror⟩ => .pure ⟨after, mirror.inside fun _ _ => Set.mem_univ _⟩

/-! ## The selected entries -/

/-- The place of the entry of that name in a directory. -/
def entryPlace (directory : Path) (workingDirectory : Location) (name : Text) : Location :=
  directory.resolve workingDirectory ++ [name]

/-- **The entry of that name is copied to the place, or may have a part of it copied there.**  It
is not left out, and either its name has a keyword and the place is in its target's subtree, or its
name has one of the endings and the place is its target's. -/
def Selects (s : Settings) (workingDirectory : Location) (name : Text) (l : Location) : Prop :=
  entryPlace s.sourceDir workingDirectory name ∉
      [s.indexPath, s.componentsPath, s.outputDir].map (Path.resolve workingDirectory) ∧
    ((s.assetKeywords.any (Text.contains name) = true ∧
        entryPlace s.outputDir workingDirectory name <+: l) ∨
      (s.assetSuffixes.any (Text.endsWith name) = true ∧
        l = entryPlace s.outputDir workingDirectory name))

/-- The places that an entry of the source directory selects. -/
def selected (s : Settings) (workingDirectory : Location) : Set Location :=
  {l | ∃ name, name ≠ Path.up ∧ Selects s workingDirectory name l}

variable {s : Settings}

/-- What an asset is copied to is its target, or lies below it. -/
theorem mem_subtree_of_selects {workingDirectory : Location} {name : Text} {l : Location}
    (selects : Selects s workingDirectory name l) :
    l ∈ subtree (entryPlace s.outputDir workingDirectory name) := by
  obtain ⟨-, ⟨-, below⟩ | ⟨-, rfl⟩⟩ := selects
  · exact below
  · exact List.prefix_rfl

theorem placeOf_eq_ok {p : Path} {l : Location} (h : placeOf t p = .ok l) :
    l = p.resolve t.workingDirectory := by
  rw [placeOf] at h
  split at h
  · cases h
  · exact (Except.ok.inj h).symm

/-- The places of paths, found one after the other. -/
theorem placesOf_ends (paths : List Path) :
    (paths.mapM fun p => Job.ofFiles (placeOf t p)).Ends t₁
      (fun places t' => t' = t₁ ∧ places = paths.map (Path.resolve t.workingDirectory))
      fun _ t' => t' = t₁ := by
  induction paths with
  | nil => exact .pure ⟨rfl, rfl⟩
  | cons p paths ih =>
      rw [List.mapM_cons]
      refine .bind (P := fun l t' => t' = t₁ ∧ l = p.resolve t.workingDirectory)
        (.ofFiles (fun l h => ⟨rfl, placeOf_eq_ok h⟩) fun _ _ => rfl) ?_
      rintro l t₂ ⟨rfl, rfl⟩
      refine .bind ih ?_
      rintro places t₃ ⟨rfl, rfl⟩
      exact .pure ⟨rfl, rfl⟩

/-- **What copying assets gives and leaves**: selected places are altered, and what is given mirrors
those parts of the source directory that lead to such places. -/
abbrev Copies (touched made : Set Location) (t : FileTree) (s : Settings) (copied : List Path)
    (t' : FileTree) : Prop :=
  Alters touched made t t' ∧ Mirror touched made t s.sourceDir s.outputDir
    {r | s.outputDir.resolve t.workingDirectory ++ r ∈ selected s t.workingDirectory} copied

/-- Copying an entry alters what the entry selects, and makes directories there and on the way to
the output directory. -/
theorem copyEntry_ends {name : Text} {excluded : List Location} (plain : t.Plain)
    (before : Alters touched made t t₁) (proper : name ≠ Path.up)
    (left : excluded = [s.indexPath, s.componentsPath, s.outputDir].map
      (Path.resolve t.workingDirectory))
    (ht : ∀ l, Selects s t.workingDirectory name l → l ∈ touched ∧ l ∈ made)
    (hm : s.outputDir.stations t.workingDirectory ⊆ made) :
    (copyEntry s excluded name).Ends t₁ (Copies touched made t s)
      fun _ => Alters touched made t := by
  have here : (s.outputDir.join ⟨.relative, [name]⟩).resolve t.workingDirectory =
      entryPlace s.outputDir t.workingDirectory name := Path.resolve_join_name _ proper _
  have there : (s.sourceDir.join ⟨.relative, [name]⟩).resolve t.workingDirectory =
      entryPlace s.sourceDir t.workingDirectory name := Path.resolve_join_name _ proper _
  have behind (r : List Text) : s.outputDir.resolve t.workingDirectory ++ name :: r =
      entryPlace s.outputDir t.workingDirectory name ++ r := by simp [entryPlace]
  rw [copyEntry]
  refine .tree_bind (.bind (.ofFiles (Q := fun l t' => Alters touched made t t' ∧
    l = entryPlace s.sourceDir t.workingDirectory name) ?_ fun _ _ => before) ?_)
  · intro l h
    rw [← there, ← before.workingDirectory]
    exact ⟨before, placeOf_eq_ok h⟩
  · rintro l t₂ ⟨between, rfl⟩
    split
    · exact .pure ⟨between, .nil⟩
    · next kept =>
        rw [left] at kept
        refine .bind (P := fun _ => Alters touched made t)
          (.ofFiles (fun _ _ => between) fun _ _ => between) fun isDirectory t₃ same => ?_
        split
        · split
          · next keyword =>
              have selects (m : Location)
                  (h : entryPlace s.outputDir t.workingDirectory name <+: m) :
                  Selects s t.workingDirectory name m := ⟨kept, .inl ⟨keyword, h⟩⟩
              refine (copyLevels_ends _ plain same ?_ (Set.union_subset ?_ ?_)).mono ?_
                fun _ _ => id
              · exact fun m h => (ht m (selects m (here ▸ h))).1
              · rintro m ⟨parts, passed, rfl⟩
                rcases List.prefix_concat_iff.mp passed with rfl | passed
                · exact (ht _ (selects _ (here ▸ List.prefix_rfl))).2
                · exact hm ⟨parts, passed, rfl⟩
              · exact fun m h => (ht m (selects m (here ▸ h))).2
              · refine fun _ _ ⟨after, mirror⟩ => ⟨after, mirror.inside fun r _ => ?_⟩
                exact ⟨name, proper, selects _ (behind r ▸ List.prefix_append _ _)⟩
          · exact .pure ⟨same, .nil⟩
        · split
          · next ending =>
              have selects : Selects s t.workingDirectory name
                  (entryPlace s.outputDir t.workingDirectory name) := ⟨kept, .inr ⟨ending, rfl⟩⟩
              refine .bind (copyFile_ends same (here ▸ (ht _ selects).1)) ?_
              rintro copied t₄ ⟨after, mirror⟩
              refine .pure ⟨after, mirror.inside ?_⟩
              rintro r rfl
              exact ⟨name, proper, selects⟩
          · exact .pure ⟨same, .nil⟩

/-- **Copying assets alters what the entries of the source directory select**, and makes directories
there and on the way to the output directory.  What it gives mirrors what they select. -/
theorem copyAll_ends (plain : t.Plain) (before : Alters touched made t t₁)
    (hs : selected s t.workingDirectory ⊆ touched ∩ made)
    (hm : s.outputDir.stations t.workingDirectory ⊆ made) :
    (copyAll s).Ends t₁ (Copies touched made t s) fun _ => Alters touched made t := by
  rw [copyAll]
  refine .tree_bind (.bind ((placesOf_ends (t := t₁) _).mono (fun _ _ h => h) ?_) ?_)
  · rintro - t₂ rfl
    exact before
  · rintro places t₂ ⟨rfl, left⟩
    rw [before.workingDirectory] at left
    split
    · split
      · exact .throw_bind before
      · exact .note_bind _ (.pure ⟨before, .nil⟩)
    · next names listed =>
        have proper := (before.plain plain).of_list listed
        refine .bind (.mapM_each names before fun name hname t₃ between => ?_)
          fun copied t₃ ⟨after, each⟩ => .pure ⟨after, .flatten each⟩
        exact copyEntry_ends plain between (proper name hname) left
          (fun l selects => hs ⟨name, proper name hname, selects⟩) hm

/-- Copying assets alters what the entries of the source directory select, and makes directories
below the output directory and on the way to it. -/
theorem copyAll_leaves (plain : t.Plain) (before : Alters touched made t t₁)
    (ht : ∀ name, name ≠ Path.up → ∀ l, Selects s t.workingDirectory name l → l ∈ touched)
    (hm : s.outputDir.stations t.workingDirectory ∪
      subtree (s.outputDir.resolve t.workingDirectory) ⊆ made) :
    (copyAll s).Leaves t₁ (Alters touched made t) := by
  refine (copyAll_ends plain before (fun l ⟨name, proper, selects⟩ =>
    ⟨ht name proper l selects, ?_⟩) (Set.subset_union_left.trans hm)).mono
    (fun _ _ copies => copies.1) fun _ _ => id
  have below : entryPlace s.outputDir t.workingDirectory name <+: l :=
    mem_subtree_of_selects selects
  exact hm (.inr ((List.prefix_append _ _).trans below))

end PageAssembly.Assets
