import Mathlib.Data.Set.Basic
import PageAssembly.Proofs.FileTree.Finding

/-!
# What an operation alters

Every operation on a file tree changes what stands at the places it is given, and may make
directories where nothing stood.  Everything else stays.

## Main definitions

* `Path.stations` — the places that a path passes
* `FileTree.Alters` — the places where two trees may differ, and how

## Main statements

* `FileTree.Alters.trans` — alterations one after the other
* `FileTree.Alters.find` — a path leads where it led before
* `FileTree.makeDirectories_alters`, `FileTree.write_alters`, `FileTree.remove_alters`,
  `FileTree.rename_alters`, `FileTree.copy_alters` — what the operations alter

### What is kept

No operation takes a directory away or puts anything else in its place.  This is what keeps the
other paths open: a path is followed through directories only.
-/

namespace PageAssembly

namespace Path

/-- **The places that a path passes**, the one it leads to among them. -/
def stations (p : Path) (workingDirectory : Location) : Set Location :=
  {l | ∃ parts, parts <+: p.parts ∧ l = resolve workingDirectory ⟨p.anchor, parts⟩}

theorem resolve_mem_stations (p : Path) (workingDirectory : Location) :
    p.resolve workingDirectory ∈ p.stations workingDirectory :=
  ⟨p.parts, List.prefix_rfl, rfl⟩

theorem stations_parent_subset (p : Path) (workingDirectory : Location) :
    p.parent.stations workingDirectory ⊆ p.stations workingDirectory := by
  rintro l ⟨parts, hp, rfl⟩
  exact ⟨parts, hp.trans (List.dropLast_prefix _), rfl⟩

/-- Without `..` a path does not pass its place before its end. -/
theorem resolve_not_mem_stations_parent {p : Path} (h : up ∉ p.parts) (hp : p.parts ≠ [])
    (workingDirectory : Location) :
    p.resolve workingDirectory ∉ p.parent.stations workingDirectory := by
  rintro ⟨parts, before, same⟩
  have part : parts <+: p.parts := before.trans (List.dropLast_prefix _)
  simp only [resolve, isAbsolute, parent] at same
  rw [foldl_follow_of_up_not_mem h, foldl_follow_of_up_not_mem fun hu => h (part.subset hu)] at same
  have short := before.length_le
  have long := congrArg List.length (List.append_cancel_left same)
  have := List.length_pos_iff.mpr hp
  simp only [parent, List.length_dropLast] at short
  omega

end Path

namespace FileTree

/-! ## Trees without `..` among their names -/

/-- No name in the tree is `..`. -/
abbrev Plain (t : FileTree) : Prop := t.EveryName (· ≠ Path.up)

namespace EveryName

variable {t : FileTree} {P : Text → Prop} {l : Location}

theorem put (h : t.EveryName P) (hl : ∀ name ∈ l, P name) (e : Entry) :
    (t.put l e).EveryName P where
  workingDirectory := h.workingDirectory
  entries := by
    rintro entry hentry name hname
    rcases List.mem_cons.mp hentry with rfl | hentry
    · exact hl name hname
    · exact h.entries entry (List.mem_filter.mp hentry).1 name hname

theorem erase (h : t.EveryName P) (l : Location) : (t.erase l).EveryName P where
  workingDirectory := h.workingDirectory
  entries := fun entry hentry => h.entries entry (List.mem_filter.mp hentry).1

end EveryName

theorem Plain.resolve {t : FileTree} (h : t.Plain) (p : Path) :
    ∀ name ∈ p.resolve t.workingDirectory, name ≠ Path.up := by
  rintro name hname rfl
  exact Path.up_not_mem_resolve (fun hu => h.workingDirectory _ hu rfl) p hname

/-! ## Alterations -/

/-- **The places where two trees may differ, and how**: at the places in `touched` in any way, and
at those in `made` by a directory where nothing stood before. -/
structure Alters (touched made : Set Location) (t t' : FileTree) : Prop where
  /-- Relative paths start where they started before. -/
  workingDirectory : t'.workingDirectory = t.workingDirectory
  /-- Every directory is still there. -/
  directories : ∀ l, t.lookup l = some .directory → t'.lookup l = some .directory
  /-- Outside `touched` there is nothing new but directories. -/
  elsewhere : ∀ l, l ∉ touched → t'.lookup l = t.lookup l ∨
    (l ∈ made ∧ t.lookup l = none ∧ t'.lookup l = some .directory)
  /-- No name becomes `..`. -/
  plain : t.Plain → t'.Plain

namespace Alters

variable {touched made touched' made' : Set Location} {t t' t'' : FileTree} {p : Path}
  {l : Location}

theorem refl (touched made : Set Location) (t : FileTree) : Alters touched made t t where
  workingDirectory := rfl
  directories := fun _ h => h
  elsewhere := fun _ _ => .inl rfl
  plain := id

/-- Two alterations one after the other.  A directory that the first one made is kept. -/
theorem trans (first : Alters touched made t t') (second : Alters touched made t' t'') :
    Alters touched made t t'' where
  workingDirectory := second.workingDirectory.trans first.workingDirectory
  directories := fun l h => second.directories l (first.directories l h)
  elsewhere := by
    intro l hl
    rcases first.elsewhere l hl with same | ⟨hmade, none, new⟩
    · rw [← same]
      exact second.elsewhere l hl
    · exact .inr ⟨hmade, none, second.directories l new⟩
  plain := second.plain ∘ first.plain

theorem mono (h : Alters touched made t t') (ht : touched ⊆ touched') (hm : made ⊆ made') :
    Alters touched' made' t t' where
  workingDirectory := h.workingDirectory
  directories := h.directories
  elsewhere := by
    intro l hl
    rcases h.elsewhere l fun touched => hl (ht touched) with same | ⟨hmade, new⟩
    · exact .inl same
    · exact .inr ⟨hm hmade, new⟩
  plain := h.plain

/-- Where anything may change, it is not said twice that a directory may be made. -/
theorem of_made_subset (h : Alters touched made t t') (hm : made ⊆ made' ∪ touched) :
    Alters touched made' t t' where
  workingDirectory := h.workingDirectory
  directories := h.directories
  elsewhere := by
    intro l hl
    rcases h.elsewhere l hl with same | ⟨hmade, new⟩
    · exact .inl same
    · exact .inr ⟨(hm hmade).resolve_right hl, new⟩
  plain := h.plain

/-- Whatever stands at a place that is not touched stays. -/
theorem lookup_of_some (h : Alters touched made t t') (hl : l ∉ touched) {e : Entry}
    (before : t.lookup l = some e) : t'.lookup l = some e := by
  rcases h.elsewhere l hl with same | ⟨-, none, -⟩
  · rw [same, before]
  · rw [before] at none
    cases none

theorem walk (h : Alters touched made t t') {here : Location} {parts : List Text}
    (leads : t.walk here parts = .ok l) : t'.walk here parts = .ok l := by
  fun_induction FileTree.walk t here parts with
  | case1 here => exact leads
  | case2 here parts hd ih => simpa [FileTree.walk, h.directories _ hd] using ih leads
  | case3 => cases leads
  | case4 here part parts hd hp hn ih =>
      simpa [FileTree.walk, h.directories _ hd, hp, hn] using ih leads
  | case5 => cases leads
  | case6 => cases leads

/-- **A path leads where it led before.** -/
theorem find (h : Alters touched made t t') {e : Option Entry} (found : t.find p = .ok (l, e)) :
    t'.find p = .ok (l, t'.lookup l) := by
  obtain ⟨clean, located, -⟩ := find_eq_ok_iff.mp found
  refine find_eq_ok_iff.mpr ⟨clean, ?_, rfl⟩
  rw [locate] at located ⊢
  split at located
  · cases located
  · next short =>
      rw [if_neg short, h.workingDirectory]
      exact h.walk located

/-- A file that is not touched is read as before. -/
theorem read (h : Alters touched made t t') (hp : p.resolve t.workingDirectory ∉ touched)
    {content : List UInt8} (before : t.read p = .ok content) : t'.read p = .ok content := by
  obtain ⟨l, found⟩ := read_eq_ok_iff.mp before
  obtain ⟨rfl, entry⟩ := find_eq_ok found
  exact read_eq_ok_iff.mpr ⟨_, h.lookup_of_some hp entry.symm ▸ h.find found⟩

/-! ### New and erased entries -/

variable (p)

theorem put (other : t.lookup (p.resolve t.workingDirectory) ≠ some .directory)
    (h : p.resolve t.workingDirectory ∈ touched) (e : Entry) :
    Alters touched made t (t.put (p.resolve t.workingDirectory) e) := by
  have root := ne_nil_of_lookup other
  refine ⟨rfl, fun l hl => ?_, fun l hl => .inl ?_, fun plain => plain.put (plain.resolve p) e⟩
  · rw [lookup_put t root, if_neg, hl]
    rintro rfl
    exact other hl
  · rw [lookup_put t root, if_neg]
    rintro rfl
    exact hl h

theorem putDirectory (nothing : t.lookup (p.resolve t.workingDirectory) = none)
    (h : p.resolve t.workingDirectory ∈ made) :
    Alters touched made t (t.put (p.resolve t.workingDirectory) .directory) := by
  have root : p.resolve t.workingDirectory ≠ [] := ne_nil_of_lookup (by rw [nothing]; nofun)
  refine ⟨rfl, fun l hl => ?_, fun l hl => ?_, fun plain => plain.put (plain.resolve p) _⟩
  · rw [lookup_put t root]
    split
    · rfl
    · exact hl
  · rw [lookup_put t root]
    split
    · next same => exact .inr ⟨same ▸ h, same ▸ nothing, rfl⟩
    · exact .inl rfl

theorem erase (other : t.lookup l ≠ some .directory) (h : l ∈ touched) :
    Alters touched made t (t.erase l) := by
  have root := ne_nil_of_lookup other
  refine ⟨rfl, fun m hm => ?_, fun m hm => .inl ?_, fun plain => EveryName.erase plain l⟩
  · rw [lookup_erase t root, if_neg, hm]
    rintro rfl
    exact other hm
  · rw [lookup_erase t root, if_neg]
    rintro rfl
    exact hm h

end Alters

/-! ## The operations -/

variable {t t' : FileTree} {p q : Path} {touched made : Set Location}

/-- A new directory stands at the path's place, where nothing stood. -/
theorem makeDirectory_alters (h : t.makeDirectory p = .ok t')
    (hm : p.resolve t.workingDirectory ∈ made) : Alters touched made t t' := by
  rw [makeDirectory] at h
  split at h
  · cases h
  · next l found =>
      obtain ⟨rfl, nothing⟩ := find_eq_ok found
      obtain rfl := Except.ok.inj h
      exact .putDirectory p nothing.symm hm
  · cases h

/-- **New directories stand at places that the path passes**, however many could be made. -/
theorem makeDirectories_alters (t : FileTree) (p : Path)
    (hm : p.stations t.workingDirectory ⊆ made) :
    Alters touched made t (t.makeDirectories p).1 := by
  have own : p.resolve t.workingDirectory ∈ made := hm (p.resolve_mem_stations _)
  fun_induction makeDirectories t p with
  | case1 p t' h => exact makeDirectory_alters h own
  | case2 => exact .refl _ _ _
  | case3 p q h hp t' f hr ih =>
      have above := (p.stations_parent_subset _).trans hm
      simpa [hr] using ih above (above (p.parent.resolve_mem_stations _))
  | case4 p q h hp t' hr t'' hmk ih =>
      have above := (p.stations_parent_subset _).trans hm
      have parent : Alters touched made t t' := by
        simpa [hr] using ih above (above (p.parent.resolve_mem_stations _))
      exact parent.trans (makeDirectory_alters hmk (parent.workingDirectory ▸ own))
  | case5 p q h hp t' hr f hmk ih =>
      have above := (p.stations_parent_subset _).trans hm
      simpa [hr] using ih above (above (p.parent.resolve_mem_stations _))
  | case6 => exact .refl _ _ _

/-- A file is written at the path's place, where no directory stands. -/
theorem write_eq_ok {content : List UInt8} (h : t.write p content = .ok t') :
    t.lookup (p.resolve t.workingDirectory) ≠ some .directory ∧
      t' = t.put (p.resolve t.workingDirectory) (.file content) := by
  rw [write] at h
  split at h
  · cases h
  · cases h
  · cases h
  · next l e other _ found =>
      obtain ⟨rfl, entry⟩ := find_eq_ok found
      refine ⟨fun directory => ?_, (Except.ok.inj h).symm⟩
      exact other (entry.trans directory)

theorem write_alters {content : List UInt8} (h : t.write p content = .ok t')
    (ht : p.resolve t.workingDirectory ∈ touched) : Alters touched made t t' := by
  obtain ⟨other, rfl⟩ := write_eq_ok h
  exact .put p other ht _

/-- What was written is there. -/
theorem lookup_of_write {content : List UInt8} (h : t.write p content = .ok t') :
    t'.lookup (p.resolve t.workingDirectory) = some (.file content) := by
  obtain ⟨other, rfl⟩ := write_eq_ok h
  have root := ne_nil_of_lookup other
  rw [lookup_put t root, if_pos rfl]

/-- What is removed stood at the path's place and was no directory. -/
theorem remove_alters (h : t.remove p = .ok t') (ht : p.resolve t.workingDirectory ∈ touched) :
    Alters touched made t t' := by
  rw [remove] at h
  split at h
  · cases h
  · cases h
  · cases h
  · next l e other _ found =>
      obtain ⟨rfl, entry⟩ := find_eq_ok found
      obtain rfl := Except.ok.inj h
      exact .erase (fun directory => other (entry.trans directory)) ht

/-- What is moved leaves its place and takes the place of anything but a directory, to which the
other path leads. -/
theorem rename_eq_ok (h : t.rename p q = .ok t') :
    ∃ e, t.lookup (p.resolve t.workingDirectory) = some e ∧
      (∃ target, t.find q = .ok (q.resolve t.workingDirectory, target)) ∧
      t.lookup (q.resolve t.workingDirectory) ≠ some .directory ∧
      t' = (t.erase (p.resolve t.workingDirectory)).put (q.resolve t.workingDirectory) e := by
  rw [rename] at h
  split at h
  any_goals cases h
  next l e m target foundSource foundTarget =>
    obtain ⟨rfl, source⟩ := find_eq_ok foundSource
    obtain ⟨rfl, rfl⟩ := find_eq_ok foundTarget
    split at h
    · cases h
    · split at h
      · cases h
      · next other =>
          exact ⟨e, source.symm, ⟨_, foundTarget⟩, other, (Except.ok.inj h).symm⟩

/-- Moving anything but a directory alters the two places. -/
theorem rename_alters (h : t.rename p q = .ok t')
    (other : t.lookup (p.resolve t.workingDirectory) ≠ some .directory)
    (hp : p.resolve t.workingDirectory ∈ touched) (hq : q.resolve t.workingDirectory ∈ touched) :
    Alters touched made t t' := by
  obtain ⟨e, -, -, target, rfl⟩ := rename_eq_ok h
  have erased : Alters touched made t (t.erase (p.resolve t.workingDirectory)) :=
    .erase other hp
  refine erased.trans (Alters.put (t := t.erase (p.resolve t.workingDirectory)) q ?_ hq e)
  have root := ne_nil_of_lookup other
  rw [workingDirectory_erase, lookup_erase t root]
  split
  · nofun
  · exact target

/-- What was moved is at its new place and not at its old one. -/
theorem lookup_of_rename (h : t.rename p q = .ok t')
    (other : t.lookup (p.resolve t.workingDirectory) ≠ some .directory)
    (apart : q.resolve t.workingDirectory ≠ p.resolve t.workingDirectory) :
    t'.lookup (q.resolve t.workingDirectory) = t.lookup (p.resolve t.workingDirectory) ∧
      t'.lookup (p.resolve t.workingDirectory) = none := by
  obtain ⟨e, source, -, target, rfl⟩ := rename_eq_ok h
  have rootSource := ne_nil_of_lookup other
  have rootTarget := ne_nil_of_lookup target
  rw [lookup_put _ rootTarget, lookup_put _ rootTarget, if_pos rfl, if_neg (Ne.symm apart),
    lookup_erase t rootSource, if_pos rfl, source]
  exact ⟨rfl, rfl⟩

/-- A copy is a file that is written. -/
theorem copy_alters (h : t.copy p q = .ok t') (hq : q.resolve t.workingDirectory ∈ touched) :
    Alters touched made t t' := by
  rw [copy] at h
  split at h
  · cases h
  · cases h
  · cases content : t.read p with
    | error f =>
        rw [content] at h
        cases h
    | ok bytes =>
        rw [content] at h
        exact write_alters h hq

end FileTree

end PageAssembly
