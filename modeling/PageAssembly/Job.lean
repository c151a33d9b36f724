import PageAssembly.Survey

/-!
# Jobs

A job works on a file tree: it reads and changes the tree, reports notices and may fail.

## Main definitions

* `Session` — a file tree and the notices reported so far
* `Job` — an operation on a session
* `Job.reading` — an operation that only reads, as a job

## Design notes

A failure ends a job and leaves the session as it is at that point.  Nothing is undone but what the
job itself undoes.  An operation that is given a tree and no session cannot change the tree, which
is why every stage that only reads has the type `FileTree → Noting α`.
-/

namespace PageAssembly

/-- A file tree and the notices reported so far. -/
structure Session where
  /-- The file tree. -/
  tree : FileTree
  /-- The notices in the order of reporting. -/
  notices : Notices := #[]

/-- An operation on a session. -/
abbrev Job := ExceptT Failure (StateM Session)

namespace Job

/-- The tree as it is at this point. -/
def tree : Job FileTree := do return (← get).tree

/-- Goes on with another tree. -/
def setTree (t : FileTree) : Job Unit := modify fun s => { s with tree := t }

/-- Reports a notice. -/
def note (n : Notice) : Job Unit := modify fun s => { s with notices := s.notices.push n }

/-- Goes on with a result, or ends with the file failure. -/
def ofFiles {α : Type} : Except FileFailure α → Job α
  | .ok a => pure a
  | .error f => throw (.files f)

/-- Changes the tree, or ends with the file failure. -/
def change (op : FileTree → Except FileFailure FileTree) : Job Unit := do
  setTree (← ofFiles (op (← tree)))

/-- An operation that only reads the tree, as a job. -/
def reading {α : Type} (op : FileTree → Noting α) : Job α := do
  let s ← get
  let (result, notices) := (op s.tree).run.run s.notices
  set { s with notices }
  MonadExcept.ofExcept result

/-- What a job gives on a session, and the session after it. -/
def runOn {α : Type} (job : Job α) (s : Session) : Except Failure α × Session := job.run.run s

end Job

end PageAssembly
