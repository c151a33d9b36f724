import PageAssembly.Proofs.FileTree.Finding
import PageAssembly.Proofs.Survey.Contents

/-!
# What a survey and a path agree on

A survey takes the components from the names in the component directory.  An expansion builds a path
from a name and looks what stands there.  This module proves that the two agree on every name
without a slash.

## Main definitions

* `Fragment.Opens` — the fragment of a name can be read

## Main statements

* `Dependencies.opens_iff_listed` — a name without a slash has a fragment exactly when it is listed
* `Dependencies.slash_not_mem_of_listed` — no listed name has a slash

### Where the slash comes in

A name without a slash becomes one part of a path, the name of the fragment's file, so what stands
at the path is an entry of the directory.  A slash makes several parts of it, and an absolute path
when it comes first.
-/

namespace PageAssembly

namespace Path

/-- A text without a slash is read as a path of one part. -/
theorem ofText_of_slash_not_mem {s : Text} (h : '/' ∉ s) (hs : isPart s = true) :
    ofText s = ⟨.relative, [s]⟩ := by
  have start : s.takeWhile (· == '/') = [] := by
    cases s with
    | nil => rfl
    | cons c s =>
        have other : (c == '/') = false := by
          rw [beq_eq_false_iff_ne]
          rintro rfl
          exact h List.mem_cons_self
        rw [List.takeWhile_cons, other, if_neg Bool.false_ne_true]
  rw [ofText, start, List.splitOn_eq_singleton h]
  simp [anchorOf, hs]

/-- Seen from a path, a text without a slash is one part further on. -/
theorem child_of_slash_not_mem {s : Text} (h : '/' ∉ s) (hs : isPart s = true) (p : Path) :
    p.child s = p.join ⟨.relative, [s]⟩ := by
  rw [child, ofText_of_slash_not_mem h hs]

end Path

namespace Fragment

/-- The fragment of the name can be opened. -/
def Opens (t : FileTree) (directory : Path) (name : Text) : Prop :=
  ∃ bytes, t.read (path directory name) = .ok bytes

/-- A name without a slash is looked for directly in the directory. -/
theorem path_of_slash_not_mem {name : Text} (h : '/' ∉ name) (directory : Path) :
    path directory name = directory.join ⟨.relative, [name ++ ending]⟩ := by
  rw [path, Path.child_of_slash_not_mem]
  · simp [ending, h]
  · simp [Path.isPart, ending, List.append_eq_singleton_iff]

end Fragment

namespace Dependencies

open FileTree

variable {t : FileTree} {directory : Path} {d : Dependencies} {name : Text}

/-! ## What the survey lists -/

/-- The survey reads a component unless a directory stands in the place of its fragment. -/
theorem surveyFile_lists (component : Text) :
    (surveyFile t directory component).Ensures fun (found : Option (Text × List Text)) =>
      (t.isDirectory (Fragment.path directory component) = .ok false ∧
          found.map Prod.fst = some component) ∨
        (t.isDirectory (Fragment.path directory component) = .ok true ∧ found = none) := by
  rw [surveyFile]
  refine Noting.Ensures.ofFiles.bind fun isDirectory asked => ?_
  cases isDirectory with
  | true => exact .pure (.inr ⟨asked, rfl⟩)
  | false =>
      refine Noting.Ensures.trivial.bind fun bytes _ => ?_
      simp only
      split
      · exact .throw _
      · exact Noting.Ensures.trivial.bind fun _ _ => .pure (.inl ⟨asked, rfl⟩)

/-- **The components are the names of the files that end as fragments do**, and are no
directories. -/
theorem surveyFiles_lists (names : List Text) :
    (surveyFiles t directory names).Ensures fun (entries : List (Text × List Text)) =>
      ∀ component, component ∈ entries.map Prod.fst ↔ component ++ Fragment.ending ∈ names ∧
        t.isDirectory (Fragment.path directory component) = .ok false := by
  induction names with
  | nil => exact .pure fun component => by simp
  | cons file names ih =>
      have rest (found : Option (Text × List Text))
          (lists : ∀ component, found.map Prod.fst = some component ↔
            component ++ Fragment.ending = file ∧
              t.isDirectory (Fragment.path directory component) = .ok false) :
          (surveyFiles t directory names >>= fun rest =>
            Pure.pure (found.toList ++ rest) : Noting _).Ensures fun entries =>
              ∀ component, component ∈ entries.map Prod.fst ↔
                component ++ Fragment.ending ∈ file :: names ∧
                  t.isDirectory (Fragment.path directory component) = .ok false := by
        refine ih.bind fun entries hentries => .pure fun component => ?_
        have head : component ∈ found.toList.map Prod.fst ↔ found.map Prod.fst = some component := by
          cases found <;> simp [eq_comm]
        rw [List.map_append, List.mem_append, head, lists, hentries, ← or_and_right,
          List.mem_cons]
      rw [surveyFiles]
      split
      · next component named =>
          obtain rfl := Text.dropEnd?_eq_some.mp named
          refine (surveyFile_lists component).bind fun found lists => rest found fun other => ?_
          rw [List.append_left_inj]
          rcases lists with ⟨file, same⟩ | ⟨directory, none⟩
          · rw [same, Option.some.injEq]
            constructor
            · rintro rfl
              exact ⟨rfl, file⟩
            · rintro ⟨rfl, -⟩
              rfl
          · rw [none]
            constructor
            · intro h
              cases h
            · rintro ⟨rfl, file⟩
              rw [directory] at file
              cases file
      · next unnamed =>
          refine Noting.Ensures.bind (.pure rfl) fun found none => rest found fun other => ?_
          rw [← none]
          constructor
          · intro h
            cases h
          · rintro ⟨rfl, -⟩
            have named : Text.dropEnd? (other ++ Fragment.ending) Fragment.ending = some other :=
              Text.dropEnd?_eq_some.mpr rfl
            rw [unnamed] at named
            cases named

/-- **A survey lists the files of the directory** that end as fragments do. -/
theorem survey_lists : (survey t directory).Ensures fun d =>
    ∃ names, t.list directory = .ok names ∧ ∀ component, component ∈ d.components ↔
      component ++ Fragment.ending ∈ names ∧
        t.isDirectory (Fragment.path directory component) = .ok false :=
  Noting.Ensures.ofFiles.bind fun names listed =>
    (surveyFiles_lists names).bind fun _ lists => .pure ⟨names, listed, lists⟩

/-! ## What can be opened -/

section Agreement

variable {notices : Notices}
  (found : ((survey t directory).run.run notices).1 = .ok d)

include found

/-- Every listed component can be opened. -/
theorem opens_of_listed (listed : name ∈ d.components) : Fragment.Opens t directory name := by
  obtain ⟨entry, hentry, rfl⟩ := List.mem_map.mp listed
  obtain ⟨bytes, read, -⟩ := survey_ensures notices d found entry hentry
  exact ⟨bytes, read⟩

/-- **A name without a slash has a fragment exactly when it is listed.** -/
theorem opens_iff_listed (plain : '/' ∉ name) :
    Fragment.Opens t directory name ↔ name ∈ d.components := by
  refine ⟨?_, opens_of_listed found⟩
  rintro ⟨bytes, read⟩
  obtain ⟨names, listed, lists⟩ := survey_lists notices d found
  obtain ⟨l, standing⟩ := read_eq_ok_iff.mp read
  refine (lists name).mpr ⟨?_, ?_⟩
  · obtain ⟨l', outer, rfl⟩ := list_eq_ok listed
    have proper : name ++ Fragment.ending ≠ Path.up := by
      intro same
      have := congrArg List.length same
      simp [Fragment.ending, Path.up] at this
    rw [Fragment.path_of_slash_not_mem plain] at standing
    obtain rfl := find_join_name proper outer standing
    exact mem_names_of_lookup (find_eq_ok standing).2.symm
  · rw [isDirectory, entry?, standing]
    rfl

/-- No listed name has a slash, for no name in a tree has one. -/
theorem slash_not_mem_of_listed (named : t.EveryName ('/' ∉ ·)) (listed : name ∈ d.components) :
    '/' ∉ name := by
  obtain ⟨names, list, lists⟩ := survey_lists notices d found
  have file := named.of_list list _ ((lists name).mp listed).1
  exact fun slash => file (List.mem_append_left _ slash)

end Agreement

end Dependencies

end PageAssembly
