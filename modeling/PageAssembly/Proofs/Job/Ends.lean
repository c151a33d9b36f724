import PageAssembly.Job

/-!
# How a job ends

A job is described by what holds of its result and the tree behind it, and by what holds of its
failure and the tree behind that.  The notices play no part in it.

## Main definitions

* `Job.Ends` — every end of a job has its property
* `Job.Leaves` — every end of a job has the same one
* `Job.Fails` — a job can end with a failure and a tree behind it

## Main statements

* `Job.Ends.bind`, `Job.Ends.tryCatch`, `Job.Ends.mapM_each` — how parts make up a whole
* `Job.Ends.change`, `Job.Ends.reading` — the operations on the tree

### One rule for each construct

A property of a compound job follows the text of the job.  A failure passes through everything that
stands behind it but a handler, so one property of failures serves all parts of a sequence.
-/

namespace PageAssembly.Job

variable {α β : Type}

/-- **Every end of the job that starts on the tree has its property**: `Q` of a result and the tree
behind it, `E` of a failure and the tree behind it. -/
def Ends (job : Job α) (t : FileTree) (Q : α → FileTree → Prop)
    (E : Failure → FileTree → Prop) : Prop :=
  ∀ notices, match job.runOn ⟨t, notices⟩ with
    | (.ok a, s) => Q a s.tree
    | (.error failure, s) => E failure s.tree

/-- **Whatever the end, the tree behind it has the property.** -/
abbrev Leaves (job : Job α) (t : FileTree) (kept : FileTree → Prop) : Prop :=
  job.Ends t (fun _ => kept) fun _ => kept

/-- **The job that starts on the tree ends with the failure** and leaves the other tree, after some
notices. -/
def Fails (job : Job α) (t : FileTree) (failure : Failure) (t' : FileTree) : Prop :=
  ∃ notices, (job.runOn ⟨t, notices⟩).1 = .error failure ∧ (job.runOn ⟨t, notices⟩).2.tree = t'

theorem runOn_bind (job : Job α) (next : α → Job β) (s : Session) :
    (job >>= next).runOn s = match job.runOn s with
      | (.ok a, s') => (next a).runOn s'
      | (.error failure, s') => (.error failure, s') := by
  simp only [runOn, Failure.run_bind]
  rcases job.run.run s with ⟨_ | _, _⟩ <;> rfl

theorem runOn_note (n : Notice) (s : Session) :
    (note n).runOn s = (.ok (), ⟨s.tree, s.notices.push n⟩) := rfl

theorem runOn_tryCatch (job : Job α) (handler : Failure → Job α) (s : Session) :
    (tryCatch job handler : Job α).runOn s = match job.runOn s with
      | (.ok a, s') => (.ok a, s')
      | (.error failure, s') => (handler failure).runOn s' := by
  simp only [runOn, ExceptT.run_tryCatch, StateT.run_bind]
  rcases job.run.run s with ⟨_ | _, _⟩ <;> rfl

theorem runOn_reading (op : FileTree → Noting α) (s : Session) :
    (reading op).runOn s =
      (((op s.tree).run.run s.notices).1, ⟨s.tree, ((op s.tree).run.run s.notices).2⟩) := by
  show (do
    set (⟨s.tree, ((op s.tree).run.run s.notices).2⟩ : Session)
    MonadExcept.ofExcept ((op s.tree).run.run s.notices).1 : Job α).runOn s = _
  rcases (op s.tree).run.run s.notices with ⟨_ | _, _⟩ <;> rfl

namespace Ends

variable {job : Job α} {t : FileTree} {P Q : α → FileTree → Prop} {R : β → FileTree → Prop}
  {E E' : Failure → FileTree → Prop}

/-- What follows from the properties of all ends holds of all ends. -/
theorem mono (ends : job.Ends t P E) (ok : ∀ a t', P a t' → Q a t')
    (error : ∀ failure t', E failure t' → E' failure t') : job.Ends t Q E' := by
  intro notices
  have h := ends notices
  split at h
  · exact ok _ _ h
  · exact error _ _ h

/-- A result has the property of results. -/
theorem of_ok (ends : job.Ends t Q E) {notices : Notices} {a : α}
    (run : (job.runOn ⟨t, notices⟩).1 = .ok a) : Q a (job.runOn ⟨t, notices⟩).2.tree := by
  have h := ends notices
  rcases outcome : job.runOn ⟨t, notices⟩ with ⟨_ | b, s⟩ <;> rw [outcome] at h run
  · cases run
  · cases run
    exact h

/-- What holds behind every end holds of the tree behind the run. -/
theorem tree {kept : FileTree → Prop} (leaves : job.Leaves t kept) (notices : Notices) :
    kept (job.runOn ⟨t, notices⟩).2.tree := by
  have h := leaves notices
  rcases outcome : job.runOn ⟨t, notices⟩ with ⟨_ | _, s⟩ <;> rw [outcome] at h <;> exact h

/-- A failure that a job ends with is one that it can end with. -/
theorem fails (ends : job.Ends t Q E) :
    job.Ends t Q fun failure t' => E failure t' ∧ job.Fails t failure t' := by
  intro notices
  have h := ends notices
  split at h
  · exact h
  · next failure s run => exact ⟨h, notices, by rw [run], by rw [run]⟩

theorem pure {a : α} (h : Q a t) : (Pure.pure a : Job α).Ends t Q E := fun _ => h

theorem throw {failure : Failure} (h : E failure t) :
    (MonadExcept.throw failure : Job α).Ends t Q E := fun _ => h

/-- Nothing behind a failure is reached. -/
theorem throw_bind {failure : Failure} {next : α → Job β} (h : E failure t) :
    (MonadExcept.throw failure >>= next : Job β).Ends t R E := fun _ => h

/-- A property of the first result and its tree is all that the second part has to know. -/
theorem bind {next : α → Job β} (first : job.Ends t P E)
    (second : ∀ a t', P a t' → (next a).Ends t' R E) : (job >>= next).Ends t R E := by
  intro notices
  have h := first notices
  rw [runOn_bind]
  rcases outcome : job.runOn ⟨t, notices⟩ with ⟨failure | a, s⟩ <;> rw [outcome] at h
  · exact h
  · exact second a s.tree h s.notices

/-- A handler goes on with the tree that the failure left. -/
theorem tryCatch {handler : Failure → Job α} (first : job.Ends t Q E)
    (handled : ∀ failure t', E failure t' → (handler failure).Ends t' Q E') :
    (MonadExcept.tryCatch job handler).Ends t Q E' := by
  intro notices
  have h := first notices
  rw [runOn_tryCatch]
  rcases outcome : job.runOn ⟨t, notices⟩ with ⟨failure | a, s⟩ <;> rw [outcome] at h
  · exact handled failure s.tree h s.notices
  · exact h

/-! ### The operations of a job -/

/-- What stands behind a look at the tree starts on that tree. -/
theorem tree_bind {next : FileTree → Job β} (h : (next t).Ends t R E) :
    (Job.tree >>= next).Ends t R E := fun notices => h notices

/-- What stands behind a change of the tree starts on the new tree. -/
theorem setTree_bind {next : Unit → Job β} {t' : FileTree} (h : (next ()).Ends t' R E) :
    (Job.setTree t' >>= next).Ends t R E := fun notices => h notices

/-- A notice leaves the tree alone. -/
theorem note_bind {next : Unit → Job β} (n : Notice) (h : (next ()).Ends t R E) :
    (Job.note n >>= next).Ends t R E := fun notices => h (notices.push n)

/-- Going on with another tree. -/
theorem setTree {Q : Unit → FileTree → Prop} {t' : FileTree} (h : Q () t') :
    (Job.setTree t').Ends t Q E := fun _ => h

/-- Going on with what a file operation gives. -/
theorem ofFiles {op : Except FileFailure α} (ok : ∀ a, op = .ok a → Q a t)
    (error : ∀ f, op = .error f → E (.files f) t) : (Job.ofFiles op).Ends t Q E := by
  cases op with
  | ok a => exact pure (ok a rfl)
  | error f => exact throw (error f rfl)

/-- What stands behind a file operation that is possible goes on with its result. -/
theorem ofFiles_bind {op : Except FileFailure α} {next : α → Job β} {a : α} (ok : op = .ok a)
    (h : (next a).Ends t R E) : (Job.ofFiles op >>= next).Ends t R E := by
  subst ok
  exact fun notices => h notices

/-- A change that fails leaves the tree as it is. -/
theorem change {op : FileTree → Except FileFailure FileTree} {Q : Unit → FileTree → Prop}
    (ok : ∀ t', op t = .ok t' → Q () t') (error : ∀ f, op t = .error f → E (.files f) t) :
    (Job.change op).Ends t Q E := by
  refine tree_bind (bind (ofFiles (Q := fun t' now => op t = .ok t' ∧ t = now) ?_ error) ?_)
  · exact fun t' h => ⟨h, rfl⟩
  · rintro t' _ ⟨h, rfl⟩
    exact setTree (ok t' h)

/-- An operation that only reads leaves the tree alone. -/
theorem reading {op : FileTree → Noting α}
    (ok : ∀ notices a, ((op t).run.run notices).1 = .ok a → Q a t)
    (error : ∀ notices failure, ((op t).run.run notices).1 = .error failure → E failure t) :
    (Job.reading op).Ends t Q E := by
  intro notices
  have run := runOn_reading op ⟨t, notices⟩
  rw [run]
  rcases outcome : (op t).run.run notices with ⟨failure | a, later⟩
  · exact error notices failure (congrArg Prod.fst outcome)
  · exact ok notices a (congrArg Prod.fst outcome)

/-! ### One step after the other -/

/-- What every step keeps, all steps together keep, and what every step gives has its property. -/
theorem mapM_each {step : α → Job β} {kept : FileTree → Prop} {G : β → Prop} (as : List α)
    (h : kept t)
    (gives : ∀ a ∈ as, ∀ t', kept t' → (step a).Ends t' (fun b t'' => kept t'' ∧ G b) E) :
    (as.mapM step).Ends t (fun bs t' => kept t' ∧ ∀ b ∈ bs, G b) E := by
  induction as generalizing t with
  | nil => exact pure ⟨h, fun b hb => absurd hb List.not_mem_nil⟩
  | cons a as ih =>
      rw [List.mapM_cons]
      refine bind (gives a List.mem_cons_self t h) fun b t' ⟨h', one⟩ => ?_
      refine bind (ih h' fun x hx => gives x (List.mem_cons_of_mem _ hx)) ?_
      rintro bs t'' ⟨h'', each⟩
      exact pure ⟨h'', List.forall_mem_cons.mpr ⟨one, each⟩⟩

/-- What every step keeps, all steps together keep. -/
theorem mapM {step : α → Job β} {kept : FileTree → Prop} (as : List α) (h : kept t)
    (keeps : ∀ a ∈ as, ∀ t', kept t' → (step a).Ends t' (fun _ => kept) E) :
    (as.mapM step).Ends t (fun _ => kept) E :=
  (mapM_each (G := fun _ => True) as h fun a ha t' h' =>
    (keeps a ha t' h').mono (fun _ _ kept => ⟨kept, trivial⟩) fun _ _ => id).mono
    (fun _ _ ⟨kept, _⟩ => kept) fun _ _ => id

/-- Reporting one notice after the other leaves the tree alone. -/
theorem forM_note {Q : PUnit → FileTree → Prop} (notice : α → Notice) (as : List α)
    (h : Q ⟨⟩ t) : (as.forM fun a => Job.note (notice a)).Ends t Q E := by
  induction as with
  | nil => exact pure h
  | cons a as ih =>
      show (Job.note (notice a) >>= fun _ => as.forM fun a => Job.note (notice a)).Ends t Q E
      exact note_bind _ ih

end Ends

end PageAssembly.Job
