import PageAssembly.Job

/-!
# What a run leaves unmoved

Of the state that an operation goes through, somebody sees a part.  An operation leaves that part
unmoved when it is the same behind the operation, whether that ends with a result or a failure.

## Main definitions

* `Unmoved` — an operation leaves what is seen of the state as it is

## Main statements

* `Unmoved.bind`, `Unmoved.tryCatch`, `Unmoved.mapM` — how the parts of an operation make up the
  whole

### One notion for every kind of state

Operations that only report and jobs that change a tree differ in their state and in nothing else,
so the rules for sequences are stated for any state and any view of it.
-/

namespace PageAssembly

/-- **The operation leaves what is seen of the state as it is**, however it ends. -/
def Unmoved {σ ν α : Type} (view : σ → ν) (op : ExceptT Failure (StateM σ) α) : Prop :=
  ∀ s, view (op.run.run s).2 = view s

namespace Unmoved

section Sequences

variable {σ ν α β : Type} {view : σ → ν} {op : ExceptT Failure (StateM σ) α}
  {next : α → ExceptT Failure (StateM σ) β}

theorem pure (a : α) : Unmoved view (Pure.pure a : ExceptT Failure (StateM σ) α) := fun _ => rfl

theorem throw (failure : Failure) :
    Unmoved view (MonadExcept.throw failure : ExceptT Failure (StateM σ) α) := fun _ => rfl

/-- What both parts leave unmoved, the sequence does. -/
theorem bind (first : Unmoved view op) (second : ∀ a, Unmoved view (next a)) :
    Unmoved view (op >>= next) := by
  intro s
  have here := first s
  rw [Failure.run_bind]
  rcases outcome : op.run.run s with ⟨failure | a, s'⟩ <;> rw [outcome] at here
  · exact here
  · exact (second a s').trans here

/-- A handler starts where the failure has left off. -/
theorem tryCatch {handler : Failure → ExceptT Failure (StateM σ) α} (first : Unmoved view op)
    (handled : ∀ failure, Unmoved view (handler failure)) :
    Unmoved view (MonadExcept.tryCatch op handler) := by
  intro s
  have here := first s
  simp only [ExceptT.run_tryCatch, StateT.run_bind]
  rcases outcome : op.run.run s with ⟨failure | a, s'⟩ <;> rw [outcome] at here
  · exact (handled failure s').trans here
  · exact here

theorem mapM {γ : Type} {step : γ → ExceptT Failure (StateM σ) α} (as : List γ)
    (h : ∀ a, Unmoved view (step a)) : Unmoved view (as.mapM step) := by
  induction as with
  | nil => exact pure []
  | cons a as ih =>
      rw [List.mapM_cons]
      exact (h a).bind fun b => ih.bind fun bs => pure (b :: bs)

theorem forM {γ : Type} {step : γ → ExceptT Failure (StateM σ) PUnit} (as : List γ)
    (h : ∀ a, Unmoved view (step a)) : Unmoved view (as.forM step) := by
  induction as with
  | nil => exact pure PUnit.unit
  | cons a as ih => exact (h a).bind fun _ => ih

end Sequences

/-! ### The operations of a job -/

section Jobs

variable {ν α : Type} {view : Notices → ν}

theorem ofFiles (op : Except FileFailure α) :
    Unmoved (fun s => view s.notices) (Job.ofFiles op) := by
  cases op with
  | ok a => exact pure a
  | error f => exact throw (.files f)

/-- A tree is no notice. -/
theorem tree : Unmoved (fun s => view s.notices) Job.tree := fun _ => rfl

theorem setTree (t : FileTree) : Unmoved (fun s => view s.notices) (Job.setTree t) := fun _ => rfl

theorem change (op : FileTree → Except FileFailure FileTree) :
    Unmoved (fun s => view s.notices) (Job.change op) :=
  tree.bind fun t => (ofFiles (op t)).bind fun t' => setTree t'

/-- A notice that is not seen. -/
theorem note {n : Notice} (unseen : ∀ notices, view (notices.push n) = view notices) :
    Unmoved (fun s => view s.notices) (Job.note n) := fun s => unseen s.notices

end Jobs

/-- Going on with what a file operation gives. -/
theorem noting_ofFiles {ν α : Type} {view : Notices → ν} (failure : FileFailure → Failure)
    (op : Except FileFailure α) : Unmoved view (Noting.ofFiles failure op) := by
  cases op with
  | ok a => exact pure a
  | error f => exact throw _

end Unmoved

end PageAssembly
