import PageAssembly.Association
import PageAssembly.Path

/-!
# File trees

A file tree says what stands at each location: a file with its bytes, a directory, or an entry that
is listed in its directory but leads nowhere.

## Main definitions

* `Entry` — what stands at a location
* `FileTree` — the entries of a tree and its working directory
* `FileTree.lookup` — the entry at a location
* `FileTree.put`, `FileTree.erase` — a tree with one location changed
* `FileTree.names` — the names of the entries of a directory
* `FileTree.locate` — the location that a path leads to, or why it leads nowhere

## Main statements

* `FileTree.lookup_put`, `FileTree.lookup_erase` — a change is seen at its own location only

## Design notes

The root is a directory whether it is listed or not.  A tree is only ever observed through `lookup`,
`names` and `below`.  A path is followed part by part, and every part but the last has to be a
directory; this is where a path through a file differs from a path through nothing, and why
`missing/..` leads nowhere.
-/

namespace PageAssembly

/-- What stands at a location. -/
inductive Entry where
  /-- A file with the given bytes. -/
  | file (content : List UInt8)
  /-- A directory. -/
  | directory
  /-- An entry that leads nowhere. -/
  | dangling
  deriving DecidableEq, Repr

/-- The entries of a file system and the directory that relative paths start at. -/
structure FileTree where
  /-- The entries, each location at most once. -/
  entries : List (Location × Entry) := []
  /-- Where relative paths start. -/
  workingDirectory : Location := []
  deriving DecidableEq, Repr

/-- Why a path cannot be used. -/
inductive Obstacle where
  /-- Nothing stands there. -/
  | notFound
  /-- The device is in use. -/
  | busy
  /-- Something stands there already. -/
  | exists
  /-- A part on the way is no directory. -/
  | notDirectory
  /-- A directory stands there. -/
  | isDirectory
  /-- A part, or the whole path, is too long. -/
  | nameTooLong
  deriving DecidableEq, Repr

namespace FileTree

/-- The entry at a location. -/
def lookup (t : FileTree) (l : Location) : Option Entry :=
  if l = [] then some .directory else t.entries.lookup l

/-- The tree without the entry at a location. -/
def erase (t : FileTree) (l : Location) : FileTree :=
  { t with entries := Association.erase l t.entries }

/-- The tree with the given entry at a location. -/
def put (t : FileTree) (l : Location) (e : Entry) : FileTree :=
  { t with entries := Association.insert l e t.entries }

/-- The names of the entries directly below a location, in ascending order. -/
def names (t : FileTree) (l : Location) : List Text :=
  Text.sort (t.entries.filterMap fun (k, _) =>
    if k ≠ [] ∧ k.dropLast = l then k.getLast? else none)

/-- The entries below a location, with their locations. -/
def below (t : FileTree) (l : Location) : List (Location × Entry) :=
  t.entries.filter fun (k, _) => l.length < k.length && k.take l.length == l

/-- A number that bounds the number of names written in the files of a tree. -/
def size (t : FileTree) : Nat :=
  (t.entries.map fun (_, e) => match e with
    | .file content => content.length
    | _ => 0).foldr (· + ·) 0

/-! ## What a change shows -/

@[simp] theorem lookup_root (t : FileTree) : t.lookup [] = some .directory := by
  simp [lookup]

/-- A new entry is seen at its location, and nothing else is seen to change. -/
theorem lookup_put (t : FileTree) {l : Location} (hl : l ≠ []) (e : Entry) (m : Location) :
    (t.put l e).lookup m = if m = l then some e else t.lookup m := by
  by_cases hm : m = []
  · subst hm
    simp [Ne.symm hl]
  · simp only [lookup, hm, if_false, put, Association.lookup_insert]

/-- An erased entry is gone from its location, and nothing else is seen to change. -/
theorem lookup_erase (t : FileTree) {l : Location} (hl : l ≠ []) (m : Location) :
    (t.erase l).lookup m = if m = l then none else t.lookup m := by
  by_cases hm : m = []
  · subst hm
    simp [Ne.symm hl]
  · simp only [lookup, hm, if_false, erase, Association.lookup_erase]

@[simp] theorem workingDirectory_put (t : FileTree) (l : Location) (e : Entry) :
    (t.put l e).workingDirectory = t.workingDirectory := rfl

@[simp] theorem workingDirectory_erase (t : FileTree) (l : Location) :
    (t.erase l).workingDirectory = t.workingDirectory := rfl

/-! ## Following a path -/

/-- The number of bytes that a text takes up. -/
def byteLength (s : Text) : Nat := (s.map fun c => c.utf8Size).foldr (· + ·) 0

/-- The most bytes that a name may take up. -/
def nameLimit : Nat := 255

/-- The least number of bytes that is too many for a whole path. -/
def pathLimit : Nat := 4096

/-- The location that parts lead to from `here`. -/
def walk (t : FileTree) (here : Location) : List Text → Except Obstacle Location
  | [] => .ok here
  | part :: parts =>
    match t.lookup here with
    | some .directory =>
      if part = Path.up then walk t here.dropLast parts
      else if nameLimit < byteLength part then .error .nameTooLong
      else walk t (here ++ [part]) parts
    | some (.file _) => .error .notDirectory
    | _ => .error .notFound

/-- The location that a path leads to.  Every part but the last has to exist; the last one need
not. -/
def locate (t : FileTree) (p : Path) : Except Obstacle Location :=
  if pathLimit ≤ byteLength p.text then .error .nameTooLong
  else t.walk (if p.isAbsolute then [] else t.workingDirectory) p.parts

end FileTree

end PageAssembly
