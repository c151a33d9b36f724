import PageAssembly.FileTree.Basic

/-!
# Reading and changing a file tree

The operations that a program performs on files, each with the failures it can have.

## Main definitions

* `FileFailure` — what can go wrong, with the paths that a message shows
* `FileTree.read`, `FileTree.list` — the bytes of a file and the names in a directory
* `FileTree.isDirectory`, `FileTree.isFile`, `FileTree.isThere` — questions about a path
* `FileTree.makeDirectory`, `FileTree.makeDirectories` — new directories
* `FileTree.write`, `FileTree.remove`, `FileTree.rename`, `FileTree.copy` — changes of files

## Design notes

An operation that fails leaves the tree as it is, so its type is a new tree or a failure.  The
exception is `makeDirectories`, which may have made some of the directories before it fails.

A question about a path that leads nowhere is answered with no; only a path that is too long cannot
be asked about.
-/

namespace PageAssembly

/-- What goes wrong with files. -/
inductive FileFailure where
  /-- A path cannot be used. -/
  | reaching (obstacle : Obstacle) (path : Path)
  /-- A file cannot be moved. -/
  | moving (obstacle : Obstacle) (source target : Path)
  /-- A file would be copied onto itself. -/
  | sameFile (source target : Path)
  /-- A path holds a NUL character. -/
  | embeddedNul
  deriving DecidableEq, Repr

/-- The number under which an obstacle is known. -/
def Obstacle.number : Obstacle → Nat
  | .notFound => 2
  | .busy => 16
  | .exists => 17
  | .notDirectory => 20
  | .isDirectory => 21
  | .nameTooLong => 36

/-- The wording of an obstacle. -/
def Obstacle.wording : Obstacle → String
  | .notFound => "No such file or directory"
  | .busy => "Device or resource busy"
  | .exists => "File exists"
  | .notDirectory => "Not a directory"
  | .isDirectory => "Is a directory"
  | .nameTooLong => "File name too long"

namespace FileFailure

/-- Whether the failure is one of the file system, as opposed to a path that no file system
takes. -/
def isSystem : FileFailure → Bool
  | .embeddedNul => false
  | _ => true

/-- The wording of a failure. -/
def message : FileFailure → String
  | .reaching o p => s!"[Errno {o.number}] {o.wording}: {p.text.quoted.str}"
  | .moving o p q => s!"[Errno {o.number}] {o.wording}: {p.text.quoted.str} -> {q.text.quoted.str}"
  | .sameFile p q => s!"{p.quotedValue} and {q.quotedValue} are the same file"
  | .embeddedNul => "embedded null byte"

end FileFailure

namespace FileTree

/-- The location that a path leads to and what stands there. -/
def find (t : FileTree) (p : Path) : Except FileFailure (Location × Option Entry) :=
  if p.text.elem '\x00' then .error .embeddedNul
  else
    match t.locate p with
    | .error o => .error (.reaching o p)
    | .ok l => .ok (l, t.lookup l)

/-- The bytes of the file at a path. -/
def read (t : FileTree) (p : Path) : Except FileFailure (List UInt8) :=
  match t.find p with
  | .error f => .error f
  | .ok (_, some (.file content)) => .ok content
  | .ok (_, some .directory) => .error (.reaching .isDirectory p)
  | .ok _ => .error (.reaching .notFound p)

/-- The names in the directory at a path, in ascending order. -/
def list (t : FileTree) (p : Path) : Except FileFailure (List Text) :=
  match t.find p with
  | .error f => .error f
  | .ok (l, some .directory) => .ok (t.names l)
  | .ok (_, some (.file _)) => .error (.reaching .notDirectory p)
  | .ok _ => .error (.reaching .notFound p)

/-- What stands at a path that leads somewhere. -/
def entry? (t : FileTree) (p : Path) : Except FileFailure (Option Entry) :=
  match t.find p with
  | .ok (_, some .dangling) => .ok none
  | .ok (_, e) => .ok e
  | .error (.reaching .nameTooLong q) => .error (.reaching .nameTooLong q)
  | .error _ => .ok none

/-- Whether a directory stands at a path. -/
def isDirectory (t : FileTree) (p : Path) : Except FileFailure Bool :=
  (t.entry? p).map (· = some .directory)

/-- Whether a file stands at a path. -/
def isFile (t : FileTree) (p : Path) : Except FileFailure Bool :=
  (t.entry? p).map fun
    | some (.file _) => true
    | _ => false

/-- Whether a file or a directory stands at a path. -/
def isThere (t : FileTree) (p : Path) : Except FileFailure Bool :=
  (t.entry? p).map Option.isSome

/-- The tree with a new directory at a path. -/
def makeDirectory (t : FileTree) (p : Path) : Except FileFailure FileTree :=
  match t.find p with
  | .error f => .error f
  | .ok (l, none) => .ok (t.put l .directory)
  | .ok _ => .error (.reaching .exists p)

/-- A directory that cannot be made is no failure when it is there already. -/
def acceptDirectory (t : FileTree) (p : Path) (f : FileFailure) : Except FileFailure Unit :=
  if f.isSystem then
    match t.isDirectory p with
    | .ok true => .ok ()
    | .ok false => .error f
    | .error g => .error g
  else .error f

/-- The tree with a directory at a path and at every path before it, and whether all of them could
be made. -/
def makeDirectories (t : FileTree) (p : Path) : FileTree × Except FileFailure Unit :=
  match t.makeDirectory p with
  | .ok t' => (t', .ok ())
  | .error (.reaching .notFound q) =>
    if p.parts = [] then (t, .error (.reaching .notFound q))
    else
      match t.makeDirectories p.parent with
      | (t', .error f) => (t', .error f)
      | (t', .ok ()) =>
        match t'.makeDirectory p with
        | .ok t'' => (t'', .ok ())
        | .error f => (t', t'.acceptDirectory p f)
  | .error f => (t, t.acceptDirectory p f)
termination_by p.parts.length
decreasing_by
  rename_i h
  have := List.length_pos_iff.2 h
  simp only [Path.parent, List.length_dropLast]
  omega

/-- The tree with the given bytes in the file at a path. -/
def write (t : FileTree) (p : Path) (content : List UInt8) : Except FileFailure FileTree :=
  match t.find p with
  | .error f => .error f
  | .ok (_, some .directory) => .error (.reaching .isDirectory p)
  | .ok (_, some .dangling) => .error (.reaching .notFound p)
  | .ok (l, _) => .ok (t.put l (.file content))

/-- The tree without the file at a path. -/
def remove (t : FileTree) (p : Path) : Except FileFailure FileTree :=
  match t.find p with
  | .error f => .error f
  | .ok (_, some .directory) => .error (.reaching .isDirectory p)
  | .ok (_, none) => .error (.reaching .notFound p)
  | .ok (l, _) => .ok (t.erase l)

/-- The tree with the entry at `p` moved to `q`, where it takes the place of anything but a
directory. -/
def rename (t : FileTree) (p q : Path) : Except FileFailure FileTree :=
  match t.find p, t.find q with
  | .error (.reaching o _), _ => .error (.moving o p q)
  | .error f, _ => .error f
  | _, .error (.reaching o _) => .error (.moving o p q)
  | _, .error f => .error f
  | .ok (_, none), _ => .error (.moving .notFound p q)
  | .ok (l, some e), .ok (m, target) =>
    if q.name = Path.up then .error (.moving .busy p q)
    else if target = some .directory then .error (.moving .isDirectory p q)
    else .ok ((t.erase l).put m e)

/-- Whether two paths lead to one file or directory. -/
def sameEntry (t : FileTree) (p q : Path) : Except FileFailure Bool :=
  match t.find p, t.find q with
  | .error .embeddedNul, _ => .error .embeddedNul
  | _, .error .embeddedNul => .error .embeddedNul
  | .ok (l, some e), .ok (m, some _) => .ok (l == m && e != .dangling)
  | _, _ => .ok false

/-- The tree with the bytes of the file at `p` in the file at `q`. -/
def copy (t : FileTree) (p q : Path) : Except FileFailure FileTree :=
  match t.sameEntry p q with
  | .error f => .error f
  | .ok true => .error (.sameFile p q)
  | .ok false => (t.read p).bind (t.write q)

/-! ## Lemmas -/

theorem makeDirectories_workingDirectory (t : FileTree) (p : Path) :
    (t.makeDirectories p).1.workingDirectory = t.workingDirectory := by
  have hm : ∀ (t t' : FileTree) (p : Path), t.makeDirectory p = .ok t' →
      t'.workingDirectory = t.workingDirectory := by
    intro t t' p h
    unfold makeDirectory at h
    split at h <;> simp_all
    rw [← h]
    rfl
  fun_induction makeDirectories t p with
  | case1 p t' h => exact hm _ _ _ h
  | case2 => rfl
  | case3 p q h hp t' f hr ih => simpa [hr] using ih
  | case4 p q h hp t' hr t'' hmk ih =>
    exact (hm _ _ _ hmk).trans (by simpa [hr] using ih)
  | case5 p q h hp t' hr f hmk ih => simpa [hr] using ih
  | case6 => rfl

end FileTree

end PageAssembly
