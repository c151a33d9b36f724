import PageAssembly.Proofs.Dependencies.Closure
import PageAssembly.Survey

/-!
# What a survey finds

A survey that ends without a failure has read every component it lists, and a validated one lists
no component that reaches itself.

## Main definitions

* `Noting.Ensures` — every result of an operation has a property
* `Noting.Gives`, `Noting.Fails` — an operation can end with a result or a failure
* `Dependencies.Surveyed` — a component with the names that its fragment refers to

## Main statements

* `Dependencies.survey_ensures` — every entry of a survey is surveyed
* `Dependencies.surveyValid_ensures` — and a validated survey has no component on a cycle
-/

namespace PageAssembly

/-- **Every result of the operation has the property**, whatever was reported before. -/
def Noting.Ensures {α : Type} (op : Noting α) (Q : α → Prop) : Prop :=
  ∀ notices a, (op.run.run notices).1 = .ok a → Q a

theorem Noting.run_bind_of_ok {α β : Type} {op : Noting α} {f : α → Noting β}
    {notices notices' : Notices} {a : α} (h : op.run.run notices = (.ok a, notices')) :
    (op >>= f).run.run notices = (f a).run.run notices' := by
  rw [Failure.run_bind, h]

/-- Notices reported one after the other. -/
theorem Noting.run_forM_note {α : Type} (notice : α → Notice) (as : List α) (notices : Notices) :
    (as.forM fun a => Noting.note (notice a)).run.run notices =
      (.ok ⟨⟩, notices ++ (as.map notice).toArray) := by
  induction as generalizing notices with
  | nil => exact congrArg (Prod.mk _) Array.append_empty.symm
  | cons a as ih =>
      show (as.forM fun a => Noting.note (notice a)).run.run (notices.push (notice a)) = _
      rw [ih, Array.push_eq_append, Array.append_assoc, List.map_cons,
        List.toArray_cons (notice a) (as.map notice)]

namespace Noting.Ensures

variable {α β : Type} {P : α → Prop} {Q : β → Prop}

theorem pure {a : α} (h : P a) : Noting.Ensures (Pure.pure a) P := by
  intro notices b run
  cases run
  exact h

theorem throw (e : Failure) : Noting.Ensures (MonadExcept.throw e : Noting α) P := by
  intro notices b run
  cases run

/-- A property of the first result is all that the second part has to know. -/
theorem bind {op : Noting α} {f : α → Noting β} (first : op.Ensures P)
    (next : ∀ a, P a → (f a).Ensures Q) : (op >>= f).Ensures Q := by
  intro notices b run
  rw [Failure.run_bind] at run
  cases result : op.run.run notices with
  | mk outcome notices' =>
      rw [result] at run
      cases outcome with
      | error e => cases run
      | ok a => exact next a (first notices a (congrArg Prod.fst result)) notices' b run

/-- What a file operation gives is its result. -/
theorem ofFiles {failure : FileFailure → Failure} {op : Except FileFailure α} :
    (Noting.ofFiles failure op).Ensures fun a => op = .ok a := by
  cases op with
  | ok a => exact pure rfl
  | error f => exact throw _

theorem trivial {op : Noting α} : op.Ensures fun _ => True := fun _ _ _ => True.intro

end Noting.Ensures

/-- The operation gives the result, after some notices. -/
def Noting.Gives {α : Type} (op : Noting α) (a : α) : Prop :=
  ∃ notices, (op.run.run notices).1 = .ok a

/-- The operation ends with the failure, after some notices. -/
def Noting.Fails {α : Type} (op : Noting α) (failure : Failure) : Prop :=
  ∃ notices, (op.run.run notices).1 = .error failure

/-- A sequence fails in its first part, or in its second one on a result of the first. -/
theorem Noting.Fails.of_bind {α β : Type} {op : Noting α} {f : α → Noting β} {failure : Failure}
    (fails : (op >>= f).Fails failure) :
    op.Fails failure ∨ ∃ a, op.Gives a ∧ (f a).Fails failure := by
  obtain ⟨notices, run⟩ := fails
  rw [Failure.run_bind] at run
  rcases outcome : op.run.run notices with ⟨_ | a, later⟩ <;> rw [outcome] at run
  · cases run
    exact .inl ⟨notices, congrArg Prod.fst outcome⟩
  · exact .inr ⟨a, ⟨notices, congrArg Prod.fst outcome⟩, later, run⟩

namespace Dependencies

open Relation

/-- **A component with the names that its fragment refers to.** -/
def Surveyed (t : FileTree) (directory : Path) (entry : Text × List Text) : Prop :=
  ∃ bytes, t.read (Fragment.path directory entry.1) = .ok bytes ∧
    (Stored.lines bytes).fault = none ∧ entry.2 = referencesOf (Stored.lines bytes)

variable {t : FileTree} {directory : Path}

theorem surveyFile_ensures (component : Text) :
    (surveyFile t directory component).Ensures fun (found : Option (Text × List Text)) =>
      ∀ entry ∈ found, entry.1 = component ∧ Surveyed t directory entry := by
  rw [surveyFile]
  refine Noting.Ensures.trivial.bind fun isDirectory _ => ?_
  split
  · exact .pure fun entry h => by cases h
  · refine Noting.Ensures.ofFiles.bind fun bytes read => ?_
    simp only
    split
    · exact .throw _
    · next sound =>
        refine Noting.Ensures.trivial.bind fun _ _ => .pure ?_
        rintro entry h
        cases h
        exact ⟨rfl, bytes, read, sound, rfl⟩

theorem surveyFiles_ensures (names : List Text) :
    (surveyFiles t directory names).Ensures fun (entries : List (Text × List Text)) =>
      ∀ entry ∈ entries, Surveyed t directory entry := by
  induction names with
  | nil => exact .pure fun entry h => absurd h List.not_mem_nil
  | cons name names ih =>
      have rest (found : Option (Text × List Text))
          (surveyed : ∀ entry ∈ found, Surveyed t directory entry) :
          (surveyFiles t directory names >>= fun rest =>
            Pure.pure (found.toList ++ rest) : Noting _).Ensures fun entries =>
              ∀ entry ∈ entries, Surveyed t directory entry := by
        refine ih.bind fun entries hentries => .pure ?_
        intro entry h
        rcases List.mem_append.mp h with h | h
        · exact surveyed entry (Option.mem_toList.mp h)
        · exact hentries entry h
      rw [surveyFiles]
      split
      · next component _ =>
          refine (surveyFile_ensures component).bind fun found surveyed => rest found ?_
          exact fun entry h => (surveyed entry h).2
      · refine Noting.Ensures.bind (.pure rfl) fun found none => rest found ?_
        intro entry h
        rw [← none] at h
        cases h

/-- **Every entry of a survey is surveyed.** -/
theorem survey_ensures : (survey t directory).Ensures fun d =>
    ∀ entry ∈ d.entries, Surveyed t directory entry :=
  Noting.Ensures.trivial.bind fun names _ =>
    (surveyFiles_ensures names).bind fun _ surveyed => .pure surveyed

/-- **A map is valid when none of its components is cyclic**; otherwise each of those is reported,
in order, and they are the failure. -/
theorem validate_run (d : Dependencies) (notices : Notices) :
    d.validate.run.run notices =
      (if d.cyclic = [] then .ok () else .error (.circular (Text.sortUnique d.cyclic)),
        notices ++ (d.cyclic.map Notice.dependsOnItself).toArray) := by
  have reported := Noting.run_forM_note Notice.dependsOnItself d.cyclic notices
  rw [validate, Noting.run_bind_of_ok reported]
  by_cases none : d.cyclic = []
  · rw [none]
    rfl
  · have some : (!d.cyclic.isEmpty) = true := by simpa using none
    rw [if_neg none, if_pos some]
    rfl

/-- A map that is found valid has no component on a cycle. -/
theorem validate_ensures (d : Dependencies) : d.validate.Ensures fun _ =>
    ∀ name ∈ d.components, ¬ TransGen d.Refers name name := by
  intro notices _ valid name component around
  have cyclic := mem_cyclic_iff.mpr ⟨component, around⟩
  rw [validate_run, if_neg (List.ne_nil_of_mem cyclic)] at valid
  cases valid

/-- **A validated survey** lists what was surveyed, and no component on a cycle. -/
theorem surveyValid_ensures : (surveyValid t directory).Ensures fun d =>
    (∀ entry ∈ d.entries, Surveyed t directory entry) ∧
      ∀ name ∈ d.components, ¬ TransGen d.Refers name name :=
  survey_ensures.bind fun d surveyed =>
    (validate_ensures d).bind fun _ acyclic => .pure ⟨surveyed, acyclic⟩

/-- A survey without cyclic components is valid, and nothing is reported about them. -/
theorem surveyValid_run {d : Dependencies} {notices later : Notices}
    (found : (survey t directory).run.run notices = (.ok d, later)) (acyclic : d.cyclic = []) :
    (surveyValid t directory).run.run notices = (.ok d, later) := by
  have accepted : d.validate.run.run later = (.ok (), later) := by
    rw [validate_run, acyclic]
    rfl
  rw [surveyValid, Noting.run_bind_of_ok found, Noting.run_bind_of_ok accepted]
  rfl

theorem surveyValid_of_survey {d : Dependencies} {notices : Notices}
    (found : ((survey t directory).run.run notices).1 = .ok d) (acyclic : d.cyclic = []) :
    ((surveyValid t directory).run.run notices).1 = .ok d :=
  congrArg Prod.fst (surveyValid_run (Prod.ext found rfl) acyclic)

/-- What a component refers to in a survey is what its fragment refers to. -/
theorem exists_direct_eq {d : Dependencies} {name : Text}
    (surveyed : ∀ entry ∈ d.entries, Surveyed t directory entry) (h : name ∈ d.components) :
    ∃ bytes, t.read (Fragment.path directory name) = .ok bytes ∧
      (Stored.lines bytes).fault = none ∧ d.direct name = referencesOf (Stored.lines bytes) := by
  obtain ⟨entry, hentry, rfl⟩ := List.mem_map.mp h
  cases found : d.entries.lookup entry.1 with
  | none =>
      rw [List.lookup_eq_none_iff] at found
      exact absurd (found entry hentry) (by simp)
  | some names =>
      obtain ⟨before, after, split, -⟩ := List.lookup_eq_some_iff.mp found
      obtain ⟨bytes, read, sound, same⟩ := surveyed (entry.1, names) (by simp [split])
      refine ⟨bytes, read, sound, ?_⟩
      rw [direct, found]
      exact same

end Dependencies

end PageAssembly
