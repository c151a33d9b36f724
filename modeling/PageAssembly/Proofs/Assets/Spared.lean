import Mathlib
import PageAssembly.Proofs.Assets.Reach

/-!
# What is not copied as an asset

The component directory and the output directory are not assets.  They are left out where they
stand directly in the source directory; further down, the entry that holds them decides.

## Main definitions

* `Assets.Spared` — a place that no asset is at or below

## Main statements

* `Assets.copyAll_spares` — nothing at or below a spared directory is copied
* `Assets.spared_iff` — which directories below the source directory are spared
* `Assets.copyAll_copies_nested_components` — a component directory that is copied

### Where the two directories may be

Places are compared with the entries of the source directory only, and a directory with a keyword
in its name is copied with all that is below it.  A directory that is left out must therefore not
stand inside of one that has a keyword, unless that one is left out as well.
-/

namespace PageAssembly

/-- Without `..` a path passes no place behind its own. -/
theorem Path.resolve_append_not_mem_stations {p : Path} (h : up ∉ p.parts) {r : Location}
    (hr : r ≠ []) (workingDirectory : Location) :
    p.resolve workingDirectory ++ r ∉ p.stations workingDirectory := by
  rintro ⟨parts, before, same⟩
  simp only [resolve, isAbsolute] at same
  rw [foldl_follow_of_up_not_mem h, foldl_follow_of_up_not_mem fun hu => h (before.subset hu),
    List.append_assoc] at same
  have long := congrArg List.length (List.append_cancel_left same)
  have short := before.length_le
  have := List.length_pos_iff.mpr hr
  simp only [List.length_append] at long
  omega

namespace Assets

open FileTree

/-- **No asset is at or below the place.**  The source directory is not, and no entry of it that has
a keyword in its name holds the place without being left out. -/
def Spared (s : Settings) (workingDirectory : Location) (c : Location) : Prop :=
  ¬ c <+: s.sourceDir.resolve workingDirectory ∧
    ∀ name, s.assetKeywords.any (Text.contains name) = true →
      entryPlace s.sourceDir workingDirectory name <+: c →
      entryPlace s.sourceDir workingDirectory name ∈
        [s.indexPath, s.componentsPath, s.outputDir].map (Path.resolve workingDirectory)

variable {t : FileTree} {s : Settings} {workingDirectory c : Location} {touched made : Set Location}

/-- What leads to a selected place does not lead to a spared one. -/
theorem Spared.not_selected (spared : Spared s workingDirectory c)
    (left : c ∈ [s.indexPath, s.componentsPath, s.outputDir].map (Path.resolve workingDirectory))
    {r : Location} (below : c <+: s.sourceDir.resolve workingDirectory ++ r) :
    s.outputDir.resolve workingDirectory ++ r ∉ selected s workingDirectory := by
  rintro ⟨name, -, kept, reached⟩
  -- either way the parts start with the entry's name
  obtain ⟨rest, rfl⟩ : ∃ rest, r = name :: rest := by
    rw [entryPlace, List.prefix_append_right_inj] at reached
    rcases reached with ⟨-, rest, rfl⟩ | ⟨-, here⟩
    · exact ⟨rest, rfl⟩
    · exact ⟨[], List.append_cancel_left here⟩
  have inside : entryPlace s.sourceDir workingDirectory name <+: c := by
    rw [List.append_cons] at below
    refine (List.prefix_or_prefix_of_prefix (List.prefix_append _ rest) below).resolve_right ?_
    intro shorter
    rcases List.prefix_concat_iff.mp shorter with rfl | above
    · exact kept left
    · exact spared.1 above
  rcases reached with ⟨keyword, -⟩ | ⟨-, here⟩
  · exact kept (spared.2 name keyword inside)
  · obtain rfl := (List.cons.inj (List.append_cancel_left here)).2
    exact kept (inside.eq_of_length_le below.length_le ▸ left)

/-- **A directory below the source directory is spared** when it stands there itself and is left
out, or when the first directory on its way is left out or has no keyword in its name; and not
otherwise. -/
theorem spared_iff {first : Text} {rest : List Text}
    (left : c ∈ [s.indexPath, s.componentsPath, s.outputDir].map (Path.resolve workingDirectory))
    (place : c = s.sourceDir.resolve workingDirectory ++ first :: rest) :
    Spared s workingDirectory c ↔ rest = [] ∨
      entryPlace s.sourceDir workingDirectory first ∈
        [s.indexPath, s.componentsPath, s.outputDir].map (Path.resolve workingDirectory) ∨
      s.assetKeywords.any (Text.contains first) = false := by
  have holds (name : Text) : entryPlace s.sourceDir workingDirectory name <+: c ↔ name = first := by
    rw [place, entryPlace, List.prefix_append_right_inj, List.cons_prefix_cons]
    simp
  constructor
  · intro spared
    by_contra none
    obtain ⟨-, kept, keyword⟩ := not_or.mp none |>.imp_right not_or.mp
    exact kept (spared.2 first (by simpa using keyword) ((holds first).mpr rfl))
  · intro safe
    refine ⟨fun above => ?_, fun name keyword inside => ?_⟩
    · have := above.length_le
      rw [place, List.length_append, List.length_cons] at this
      omega
    · obtain rfl := (holds name).mp inside
      rcases safe with rfl | kept | none
      · rwa [entryPlace, ← place]
      · exact kept
      · rw [none] at keyword
        cases keyword

/-- Below the source directory no more has to be asked: what is not spared holds a place of which
the counterpart is selected. -/
theorem spared_iff_forall_not_selected {first : Text} {rest : List Text} (proper : first ≠ Path.up)
    (left : c ∈ [s.indexPath, s.componentsPath, s.outputDir].map (Path.resolve workingDirectory))
    (place : c = s.sourceDir.resolve workingDirectory ++ first :: rest) :
    Spared s workingDirectory c ↔ ∀ r, c <+: s.sourceDir.resolve workingDirectory ++ r →
      s.outputDir.resolve workingDirectory ++ r ∉ selected s workingDirectory := by
  refine ⟨fun spared r => spared.not_selected left, fun none => ?_⟩
  rw [spared_iff left place]
  by_contra otherwise
  obtain ⟨-, kept, keyword⟩ := not_or.mp otherwise |>.imp_right not_or.mp
  have below : entryPlace s.outputDir workingDirectory first <+:
      s.outputDir.resolve workingDirectory ++ first :: rest := ⟨rest, by simp [entryPlace]⟩
  exact none (first :: rest) (place ▸ List.prefix_rfl)
    ⟨first, proper, kept, .inl ⟨by simpa using keyword, below⟩⟩

/-- A mirror, where it is not said twice that a directory may be made. -/
theorem Mirror.of_made_subset {made' : Set Location} {source target : Path}
    {parts : Set (List Text)} {copied : List Path}
    (mirror : Mirror touched made t source target parts copied) (hm : made ⊆ made' ∪ touched) :
    Mirror touched made' t source target parts copied := by
  intro p member
  obtain ⟨r, hr, same, t₁, t₂, before, once⟩ := mirror p member
  exact ⟨r, hr, same, t₁, t₂, before.of_made_subset hm, once⟩

/-- Copying assets alters the selected places and makes directories on the way to the output
directory. -/
theorem copyAll_ends_of_plain (plain : t.Plain) :
    (copyAll s).Ends t
      (Copies (selected s t.workingDirectory) (s.outputDir.stations t.workingDirectory) t s)
      fun _ => Alters (selected s t.workingDirectory) (s.outputDir.stations t.workingDirectory)
        t := by
  have ends : (copyAll s).Ends t (Copies (selected s t.workingDirectory)
      (s.outputDir.stations t.workingDirectory ∪ selected s t.workingDirectory) t s) _ :=
    copyAll_ends plain (.refl _ _ t) (Set.subset_inter Set.Subset.rfl Set.subset_union_right)
      Set.subset_union_left
  exact ends.mono
    (fun _ _ ⟨alters, mirror⟩ => ⟨alters.of_made_subset Set.Subset.rfl,
      mirror.of_made_subset Set.Subset.rfl⟩)
    fun _ _ alters => alters.of_made_subset Set.Subset.rfl

/-- **The component directory and the output directory are not copied where they are spared.**
Copying assets alters no more than the selected places, and gives targets of files that lead there
from the source directory.  Of what is at or below a spared directory nothing is given, and nothing
is made in the output directory where it would be copied to.  An output directory with `..` among
its parts is the exception: directories on its way may be made behind it. -/
theorem copyAll_spares (plain : t.Plain) (notices : Notices) :
    let run := (copyAll s).runOn ⟨t, notices⟩
    let source := s.sourceDir.resolve t.workingDirectory
    let output := s.outputDir.resolve t.workingDirectory
    let stations := s.outputDir.stations t.workingDirectory
    Alters (selected s t.workingDirectory) stations t run.2.tree ∧
      (∀ copied, run.1 = .ok copied →
        Mirror (selected s t.workingDirectory) stations t s.sourceDir s.outputDir
          {r | output ++ r ∈ selected s t.workingDirectory} copied) ∧
      ∀ directory ∈ [s.componentsPath, s.outputDir],
        Spared s t.workingDirectory (directory.resolve t.workingDirectory) →
        ∀ r, directory.resolve t.workingDirectory <+: source ++ r →
          (∀ copied, run.1 = .ok copied → s.outputDir.join ⟨.relative, r⟩ ∉ copied) ∧
          (run.2.tree.lookup (output ++ r) = t.lookup (output ++ r) ∨
            Path.up ∈ s.outputDir.parts ∧ output ++ r ∈ stations ∧
              t.lookup (output ++ r) = none ∧
              run.2.tree.lookup (output ++ r) = some .directory) := by
  intro run source output stations
  have ends : (copyAll s).Ends t _ _ := copyAll_ends_of_plain (s := s) plain
  have alters : Alters (selected s t.workingDirectory) stations t run.2.tree :=
    (ends.mono (fun _ _ copies => copies.1) fun _ _ => id).tree notices
  have mirror (copied : List Path) (h : run.1 = .ok copied) := (ends.of_ok h).2
  refine ⟨alters, mirror, fun directory member spared r below => ?_⟩
  have outside : output ++ r ∉ selected s t.workingDirectory :=
    spared.not_selected (List.mem_map_of_mem (List.mem_cons_of_mem _ member)) below
  refine ⟨fun copied h given => ?_, ?_⟩
  · obtain ⟨r', hr', same, -⟩ := mirror copied h _ given
    obtain rfl := List.append_cancel_left (congrArg Path.parts same)
    exact outside hr'
  · refine (alters.elsewhere _ outside).imp_right fun ⟨passed, new⟩ => ⟨?_, passed, new⟩
    have deep : r ≠ [] := by
      rintro rfl
      exact spared.1 (by rwa [List.append_nil] at below)
    by_contra down
    exact Path.resolve_append_not_mem_stations down deep _ passed

/-! ### Component directories in a directory that has a keyword -/

/-- A source directory with a file and a directory, which holds another one. -/
def nestedTree : FileTree where
  entries := [(["src".toList], .directory), (["src".toList, "a.html".toList], .file [97]),
    (["src".toList, "html".toList], .directory),
    (["src".toList, "html".toList, "parts".toList], .directory),
    (["src".toList, "html".toList, "parts".toList, "p.html".toList], .file [112]),
    (["out".toList], .directory)]

/-- Settings with the given component directory. -/
def nestedSettings (components : Text) : Settings :=
  .make (some (Path.ofText "src".toList)) (some (Path.ofText "out".toList)) (some components)
    none none none

/-- A component directory with a keyword in its name stands in the source directory and is not
copied. -/
theorem copyAll_spares_example :
    let s := nestedSettings "html".toList
    let run := (copyAll s).runOn ⟨nestedTree, #[]⟩
    nestedTree.Plain ∧ Spared s [] (s.componentsPath.resolve []) ∧
      run.1 = .ok [Path.ofText "out/a.html".toList] ∧
      ∀ r, ["src".toList, "html".toList] <+: "src".toList :: r →
        s.outputDir.join ⟨.relative, r⟩ ∉ [Path.ofText "out/a.html".toList] ∧
        run.2.tree.lookup ("out".toList :: r) = nestedTree.lookup ("out".toList :: r) := by
  have ended : ((copyAll (nestedSettings "html".toList)).runOn ⟨nestedTree, #[]⟩).1 =
      .ok [Path.ofText "out/a.html".toList] := by cbv
  intro s run
  have plain : nestedTree.Plain := ⟨by decide, by decide⟩
  have source : s.sourceDir.resolve [] = ["src".toList] := by decide
  have output : s.outputDir.resolve [] = ["out".toList] := by decide
  have components : s.componentsPath.resolve [] = ["src".toList, "html".toList] := by decide
  have spared : Spared s [] (s.componentsPath.resolve []) :=
    (spared_iff (.tail _ (.head _)) (by rw [components, source]; rfl)).mpr (.inl rfl)
  have down : Path.up ∉ s.outputDir.parts := by decide
  have spares := (copyAll_spares (s := s) plain #[]).2.2 s.componentsPath (.head _) spared
  rw [show nestedTree.workingDirectory = [] from rfl, source, output, components] at spares
  refine ⟨plain, spared, ended, fun r below => ?_⟩
  obtain ⟨absent, same | ⟨up, -⟩⟩ := spares r below
  · exact ⟨absent _ ended, same⟩
  · exact absurd up down

/-- A component directory one level further down is copied with the directory that holds it. -/
theorem copyAll_copies_nested_components :
    let s := nestedSettings "html/parts".toList
    let run := (copyAll s).runOn ⟨nestedTree, #[]⟩
    s.componentsPath = Path.ofText "src/html/parts".toList ∧
      run.1 = .ok [Path.ofText "out/a.html".toList, Path.ofText "out/html/parts/p.html".toList] ∧
      run.2.tree.lookup ["out".toList, "html".toList, "parts".toList] = some .directory ∧
      run.2.tree.read (Path.ofText "out/html/parts/p.html".toList) =
        nestedTree.read (s.componentsPath.child "p.html".toList) := by
  refine ⟨by cbv, by cbv, by cbv, by cbv⟩

end Assets

end PageAssembly
