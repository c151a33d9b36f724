import PageAssembly.Proofs.Job.Ends

/-!
# What a job tells

A job is described by what holds of its result, of what it reports before it and of the tree behind
it.

## Main definitions

* `Job.Tells` — every result of a job has its property, and so has every failure

## Main statements

* `Job.Tells.bind` — two parts of a job report one after the other
* `Job.Tells.mapM` — what holds of all steps together, step by step

### Reports in their order

What a job reports is put behind what was reported before, whatever that is.  So the reports of a
sequence are those of its parts one after the other.
-/

namespace PageAssembly.Job

variable {α β : Type}

/-- **Every end of the job that starts on the tree has its property**: `Q` of a result, what is
reported before it and the tree behind it, and `E` of a failure. -/
def Tells (job : Job α) (t : FileTree) (Q : α → List Notice → FileTree → Prop)
    (E : Failure → Prop) : Prop :=
  ∀ notices, match job.runOn ⟨t, notices⟩ with
    | (.ok a, s) => ∃ told : List Notice, s.notices = notices ++ told.toArray ∧ Q a told s.tree
    | (.error failure, _) => E failure

namespace Tells

variable {job : Job α} {t : FileTree} {P Q : α → List Notice → FileTree → Prop}
  {R : β → List Notice → FileTree → Prop} {E E' : Failure → Prop}

/-- What follows from the properties of all ends holds of all ends. -/
theorem mono (tells : job.Tells t P E) (ok : ∀ a told t', P a told t' → Q a told t')
    (error : ∀ failure, E failure → E' failure) : job.Tells t Q E' := by
  intro notices
  have h := tells notices
  split at h
  · obtain ⟨told, same, property⟩ := h
    exact ⟨told, same, ok _ _ _ property⟩
  · exact error _ h

theorem pure {a : α} (h : Q a [] t) : (Pure.pure a : Job α).Tells t Q E :=
  fun notices => ⟨[], by simp, h⟩

theorem throw {failure : Failure} (h : E failure) :
    (MonadExcept.throw failure : Job α).Tells t Q E := fun _ => h

/-- Nothing behind a failure is reached. -/
theorem throw_bind {failure : Failure} {next : α → Job β} (h : E failure) :
    (MonadExcept.throw failure >>= next : Job β).Tells t R E := fun _ => h

/-- **The second part reports behind the first one.** -/
theorem bind {next : α → Job β} (first : job.Tells t P E)
    (second : ∀ a told t', P a told t' →
      (next a).Tells t' (fun b more => R b (told ++ more)) E) : (job >>= next).Tells t R E := by
  intro notices
  have h := first notices
  rw [runOn_bind]
  rcases outcome : job.runOn ⟨t, notices⟩ with ⟨failure | a, s⟩ <;> rw [outcome] at h
  · exact h
  · obtain ⟨told, same, property⟩ := h
    have h' := second a told s.tree property s.notices
    split at h'
    · next b s' later =>
        obtain ⟨more, same', property'⟩ := h'
        have run : (next a).runOn s = (.ok b, s') := later
        simp only [run]
        refine ⟨told ++ more, ?_, property'⟩
        rw [same', same, Array.append_assoc]
        simp only [List.append_toArray]
    · next failure s' later =>
        have run : (next a).runOn s = (.error failure, s') := later
        simp only [run]
        exact h'

/-! ### The operations of a job -/

/-- What stands behind a look at the tree starts on that tree. -/
theorem tree_bind {next : FileTree → Job β} (h : (next t).Tells t R E) :
    (Job.tree >>= next).Tells t R E := fun notices => h notices

/-- What stands behind a change of the tree starts on the new tree. -/
theorem setTree_bind {next : Unit → Job β} {t' : FileTree} (h : (next ()).Tells t' R E) :
    (Job.setTree t' >>= next).Tells t R E := fun notices => h notices

/-- A notice stands before what is reported behind it. -/
theorem note_bind {next : Unit → Job β} {n : Notice}
    (h : (next ()).Tells t (fun b more => R b (n :: more)) E) :
    (Job.note n >>= next).Tells t R E := by
  refine bind (P := fun _ told t' => told = [n] ∧ t' = t) ?_ ?_
  · intro notices
    exact ⟨[n], by simp, rfl, rfl⟩
  · rintro - _ _ ⟨rfl, rfl⟩
    exact h

/-- What stands behind a file operation goes on with its result, or the operation failed. -/
theorem ofFiles_bind {op : Except FileFailure α} {next : α → Job β}
    (ok : ∀ a, op = .ok a → (next a).Tells t R E) (error : ∀ f, op = .error f → E (.files f)) :
    (Job.ofFiles op >>= next).Tells t R E := by
  cases op with
  | ok a => exact fun notices => ok a rfl notices
  | error f => exact throw_bind (error f rfl)

/-! ### One step after the other -/

/-- **What holds of the steps that are done, and goes on to hold with each further one, holds of
all steps.** -/
theorem mapM {step : α → Job β} {I : List α → List β → List Notice → FileTree → Prop}
    (as : List α) (start : I [] [] [] t)
    (next : ∀ done a rest, as = done ++ a :: rest → ∀ bs told t', I done bs told t' →
      (step a).Tells t' (fun b more => I (done ++ [a]) (bs ++ [b]) (told ++ more)) E) :
    (as.mapM step).Tells t (I as) E := by
  -- the steps that are left start on what holds of those that are done
  have left (rest : List α) : ∀ done bs told t', as = done ++ rest → I done bs told t' →
      (rest.mapM step).Tells t' (fun more later => I as (bs ++ more) (told ++ later)) E := by
    induction rest with
    | nil =>
        intro done bs told t' split holds
        obtain rfl : as = done := by rw [split, List.append_nil]
        rw [List.mapM_nil]
        refine pure ?_
        rwa [List.append_nil, List.append_nil]
    | cons a rest ih =>
        intro done bs told t' split holds
        rw [List.mapM_cons]
        refine bind (next done a rest split bs told t' holds) fun b more t'' holds' => ?_
        refine bind (ih (done ++ [a]) _ _ t'' (by rw [split, List.append_assoc]; rfl) holds') ?_
        intro bs' later t₃ holds''
        refine pure ?_
        rwa [List.append_nil, ← List.append_assoc, ← List.singleton_append, ← List.append_assoc]
  exact (left as [] [] [] t rfl start).mono (fun _ _ _ h => h) fun _ h => h

end Tells

end PageAssembly.Job
