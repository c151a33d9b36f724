import PageAssembly.Proofs.FileTree.Entry
import PageAssembly.Proofs.Survey.Agreement

/-!
# A component directory that stays as it is

What a survey finds depends on the entries of the component directory alone.

## Main definitions

* `Fragment.SameIn` — two trees have the same entries in a component directory
* `Dependencies.Surveyable` — a component does not fail a survey

## Main statements

* `Dependencies.surveyFiles_of_surveyable` — a survey fails at one of its components only
* `Dependencies.exists_surveyValid` — a survey that is valid is valid for the same directory

### Names in any order

The entries of a directory are listed without a promise on how often a name is listed.  So two
surveys of the same directory are compared by what they list and by what each component refers to,
which is all that validity depends on.
-/

namespace PageAssembly

open FileTree

namespace Fragment

/-- **The component directory has the same entries in both trees.** -/
structure SameIn (directory : Path) (t t' : FileTree) : Prop where
  /-- What is found at a fragment's path. -/
  find : ∀ name, '/' ∉ name → t'.find (path directory name) = t.find (path directory name)
  /-- What is listed. -/
  names : ∃ l, t.find directory = .ok (l, some .directory) ∧
    t'.find directory = .ok (l, some .directory) ∧ ∀ name, name ∈ t'.names l ↔ name ∈ t.names l

variable {t t' : FileTree} {directory : Path}

/-- The name of a fragment's file is no way up. -/
theorem append_ending_ne_up (name : Text) : name ++ ending ≠ Path.up := by
  intro same
  have := congrArg List.length same
  simp [ending, Path.up] at this

/-- The name of a fragment's file has no slash, so the component's has none. -/
theorem slash_not_mem_of_listed_file {l : Location} {component : Text}
    (named : t.EveryName ('/' ∉ ·)) (listed : component ++ ending ∈ t.names l) :
    '/' ∉ component :=
  fun slash => named.of_mem_names listed (List.mem_append_left _ slash)

/-- A directory in which nothing is altered has the same entries. -/
theorem sameIn_of_alters {touched made : Set Location} {l : Location}
    (found : t.find directory = .ok (l, some .directory)) (alters : Alters touched made t t')
    (same : ∀ name, t'.lookup (l ++ [name]) = t.lookup (l ++ [name])) :
    SameIn directory t t' where
  find := by
    intro name slash
    rw [path_of_slash_not_mem slash]
    have enters := enters_join_name found (append_ending_ne_up name)
    refine enters.find_eq alters ?_
    rw [Path.resolve_join_name directory (append_ending_ne_up name), ← (find_eq_ok found).1]
    exact same _
  names := ⟨l, found, alters.find_directory found, fun name => by
    rw [mem_names_iff, mem_names_iff, same]⟩

namespace SameIn

variable (same : SameIn directory t t') {name : Text}

include same

theorem read (slash : '/' ∉ name) :
    t'.read (path directory name) = t.read (path directory name) := by
  rw [FileTree.read, FileTree.read, same.find name slash]

theorem isDirectory (slash : '/' ∉ name) :
    t'.isDirectory (path directory name) = t.isDirectory (path directory name) :=
  isDirectory_of_find_eq (same.find name slash)

end SameIn

end Fragment

namespace Dependencies

open Relation Fragment

variable {t t' : FileTree} {directory : Path} {d : Dependencies}

/-! ## When a survey ends with a result -/

/-- **The component does not fail a survey**: a directory stands in the place of its fragment, or
the fragment can be read to its end. -/
def Surveyable (t : FileTree) (directory : Path) (component : Text) : Prop :=
  t.isDirectory (path directory component) = .ok true ∨
    t.isDirectory (path directory component) = .ok false ∧
      ∃ bytes, t.read (path directory component) = .ok bytes ∧ (Stored.lines bytes).fault = none

/-- A component that was surveyed is surveyable. -/
theorem surveyFile_ensures_surveyable (component : Text) :
    (surveyFile t directory component).Ensures fun _ => Surveyable t directory component := by
  rw [surveyFile]
  refine Noting.Ensures.ofFiles.bind fun isDirectory asked => ?_
  cases isDirectory with
  | true => exact .pure (.inl asked)
  | false =>
      refine Noting.Ensures.ofFiles.bind fun bytes read => ?_
      simp only
      split
      · exact .throw _
      · next sound =>
          exact Noting.Ensures.trivial.bind fun _ _ => .pure (.inr ⟨asked, bytes, read, sound⟩)

theorem surveyFiles_ensures_surveyable (names : List Text) :
    (surveyFiles t directory names).Ensures fun _ => ∀ component,
      component ++ ending ∈ names → Surveyable t directory component := by
  induction names with
  | nil => exact .pure fun _ h => absurd h List.not_mem_nil
  | cons file names ih =>
      have rest (found : Option (Text × List Text))
          (first : ∀ component, component ++ ending = file → Surveyable t directory component) :
          (surveyFiles t directory names >>= fun rest =>
            Pure.pure (found.toList ++ rest) : Noting _).Ensures fun _ => ∀ component,
              component ++ ending ∈ file :: names → Surveyable t directory component := by
        refine ih.bind fun _ others => .pure fun component h => ?_
        rcases List.mem_cons.mp h with h | h
        · exact first component h
        · exact others component h
      rw [surveyFiles]
      split
      · next component named =>
          obtain rfl := Text.dropEnd?_eq_some.mp named
          refine (surveyFile_ensures_surveyable component).bind fun found surveyable =>
            rest found fun other h => ?_
          rwa [List.append_cancel_right h]
      · next unnamed =>
          refine Noting.Ensures.trivial.bind fun found _ => rest found fun other h => ?_
          rw [Text.dropEnd?_eq_some.mpr h.symm] at unnamed
          cases unnamed

/-- A surveyable component is surveyed. -/
theorem surveyFile_of_surveyable {component : Text} (surveyable : Surveyable t directory component)
    (notices : Notices) :
    ∃ found later, (surveyFile t directory component).run.run notices = (.ok found, later) := by
  rcases surveyable with asked | ⟨asked, bytes, read, sound⟩
  · refine ⟨none, notices, ?_⟩
    rw [surveyFile, asked]
    rfl
  · refine ⟨some (component, referencesOf (Stored.lines bytes)),
      notices.push (.references component (referencesOf (Stored.lines bytes))), ?_⟩
    simp only [surveyFile, asked, read, Noting.ofFiles, pure_bind, Bool.false_eq_true, if_false,
      sound]
    rfl

/-- **A survey fails at one of its components only.** -/
theorem surveyFiles_of_surveyable (names : List Text)
    (surveyable : ∀ component, component ++ ending ∈ names → Surveyable t directory component)
    (notices : Notices) :
    ∃ entries later, (surveyFiles t directory names).run.run notices = (.ok entries, later) := by
  induction names generalizing notices with
  | nil => exact ⟨[], notices, rfl⟩
  | cons file names ih =>
      have rest (found : Option (Text × List Text)) (notices : Notices) : ∃ entries later,
          (surveyFiles t directory names >>= fun rest => Pure.pure (found.toList ++ rest) :
            Noting _).run.run notices = (.ok entries, later) := by
        obtain ⟨entries, later, run⟩ :=
          ih (fun component h => surveyable component (List.mem_cons_of_mem _ h)) notices
        exact ⟨found.toList ++ entries, later, by rw [Noting.run_bind_of_ok run]; rfl⟩
      rw [surveyFiles]
      split
      · next component named =>
          obtain rfl := Text.dropEnd?_eq_some.mp named
          obtain ⟨found, between, run⟩ :=
            surveyFile_of_surveyable (surveyable component List.mem_cons_self) notices
          obtain ⟨entries, later, run'⟩ := rest found between
          exact ⟨entries, later, by rw [Noting.run_bind_of_ok run, run']⟩
      · exact rest none notices

/-! ## The same directory again -/

/-- **What a survey of a directory says about it**: it lists the components with what they refer
to, and none of them failed it. -/
structure Surveys (t : FileTree) (directory : Path) (l : Location) (d : Dependencies) : Prop where
  /-- The components are fragments in the directory. -/
  lists : ∀ component, component ∈ d.components ↔ component ++ ending ∈ t.names l ∧
    t.isDirectory (path directory component) = .ok false
  /-- Each was read. -/
  surveyed : ∀ entry ∈ d.entries, Surveyed t directory entry
  /-- None failed the survey. -/
  surveyable : ∀ component, component ++ ending ∈ t.names l → Surveyable t directory component

theorem survey_surveys {l : Location} (found : t.find directory = .ok (l, some .directory)) :
    (survey t directory).Ensures (Surveys t directory l) := by
  have listed := list_of_directory found
  intro notices d run
  obtain ⟨names, same, lists⟩ := survey_lists notices d run
  obtain rfl := Except.ok.inj (listed.symm.trans same)
  refine ⟨lists, survey_ensures notices d run, ?_⟩
  rw [survey, listed] at run
  exact (surveyFiles_ensures_surveyable (t.names l)).bind (Q := fun _ => ∀ component,
    component ++ ending ∈ t.names l → Surveyable t directory component)
    (fun _ all => .pure all) notices d run

section Again

variable {l : Location} {d' : Dependencies} (same : SameIn directory t t')
  (named : t.EveryName ('/' ∉ ·)) (names : ∀ name, name ∈ t'.names l ↔ name ∈ t.names l)
  (first : Surveys t directory l d) (second : Surveys t' directory l d')

include same named names first second

theorem components_iff (component : Text) :
    component ∈ d'.components ↔ component ∈ d.components := by
  rw [second.lists, first.lists, names]
  refine and_congr_right fun listed => ?_
  rw [same.isDirectory (slash_not_mem_of_listed_file named listed)]

/-- The same components refer to the same names. -/
theorem refers_of_same {a b : Text} (h : d'.Refers a b) : d.Refers a b := by
  have component' := mem_components_of_refers h
  have component := (components_iff same named names first second a).mp component'
  have slash := slash_not_mem_of_listed_file named ((first.lists a).mp component).1
  obtain ⟨bytes, read, -, direct⟩ := exists_direct_eq first.surveyed component
  obtain ⟨bytes', read', -, direct'⟩ := exists_direct_eq second.surveyed component'
  rw [same.read slash, read] at read'
  obtain rfl := Except.ok.inj read'
  rw [Refers, direct, ← direct']
  exact h

end Again

/-- **A survey that is valid is valid for the same directory.** -/
theorem exists_surveyValid (same : SameIn directory t t') (named : t.EveryName ('/' ∉ ·))
    {notices : Notices} (valid : ((surveyValid t directory).run.run notices).1 = .ok d)
    (notices' : Notices) :
    ∃ d' later, (surveyValid t' directory).run.run notices' = (.ok d', later) := by
  obtain ⟨l, found, found', names⟩ := same.names
  have acyclic := (surveyValid_ensures notices d valid).2
  have first : Surveys t directory l d :=
    ((survey_surveys found).bind fun d surveys =>
      Noting.Ensures.trivial.bind fun _ _ => .pure surveys) notices d valid
  have surveyable : ∀ component, component ++ ending ∈ t'.names l →
      Surveyable t' directory component := by
    intro component h
    rw [names] at h
    have slash := slash_not_mem_of_listed_file named h
    rw [Surveyable, same.isDirectory slash, same.read slash]
    exact first.surveyable component h
  obtain ⟨entries, later, files⟩ := surveyFiles_of_surveyable (t'.names l) surveyable notices'
  have run : (survey t' directory).run.run notices' = (.ok ⟨entries⟩, later) := by
    rw [survey, list_of_directory found']
    exact Noting.run_bind_of_ok files
  have second := survey_surveys found' notices' ⟨entries⟩ (congrArg Prod.fst run)
  refine ⟨⟨entries⟩, later, surveyValid_run run ?_⟩
  -- a component that reaches itself now reached itself before
  refine List.eq_nil_iff_forall_not_mem.mpr fun name cyclic => ?_
  obtain ⟨component, around⟩ := mem_cyclic_iff.mp cyclic
  exact acyclic name ((components_iff same named names first second name).mp component)
    (TransGen.mono (fun _ _ => refers_of_same same named names first second) _ _ around)

end Dependencies

end PageAssembly
