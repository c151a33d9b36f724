import PageAssembly.Text.Quoted

/-!
# Paths

A path names a place in a file tree, from the root or from the working directory.

## Main definitions

* `Path` — an anchor and a list of parts
* `Path.ofText`, `Path.text` — reading and writing a path
* `Path.join`, `Path.child` — a path seen from another one
* `Path.name`, `Path.parent` — the last part and what stands before it
* `Path.extend?` — the path with its name made longer
* `Location`, `Path.resolve` — the place that a path means, by its spelling alone

## Design notes

Reading drops empty parts and `.`, so two spellings of a path that differ in those alone are one
path.  A part `..` stays, because what it means depends on the file tree.  Exactly two slashes at
the start make an anchor of their own.
-/

namespace PageAssembly

/-- Where a path starts. -/
inductive Anchor where
  /-- At the working directory. -/
  | relative
  /-- At the root. -/
  | root
  /-- At the root, written with two slashes. -/
  | doubleRoot
  deriving DecidableEq, Repr

/-- A path in a file tree. -/
structure Path where
  /-- Where the path starts. -/
  anchor : Anchor
  /-- The parts of the path; none is empty or a single full stop when the path was read. -/
  parts : List Text
  deriving DecidableEq, Repr

/-- A place in a file tree: the names that lead to it from the root. -/
abbrev Location := List Text

namespace Path

/-- The part that leads one directory up. -/
def up : Text := ['.', '.']

/-- Whether a part of a written path is kept. -/
def isPart (part : Text) : Bool := !(part == [] || part == ['.'])

/-- The anchor that a path with the given number of slashes at its start has. -/
def anchorOf : Nat → Anchor
  | 0 => .relative
  | 2 => .doubleRoot
  | _ => .root

/-- The path with the given spelling. -/
def ofText (s : Text) : Path where
  anchor := anchorOf (s.takeWhile (· == '/')).length
  parts := (s.splitOn '/').filter isPart

/-- The working directory. -/
def here : Path := ⟨.relative, []⟩

/-- The start of a path's spelling. -/
def anchorText : Anchor → Text
  | .relative => []
  | .root => ['/']
  | .doubleRoot => ['/', '/']

/-- The spelling of a path. -/
def text (p : Path) : Text :=
  if p = here then ['.'] else anchorText p.anchor ++ ['/'].intercalate p.parts

/-- The spelling of a path as a string. -/
def str (p : Path) : String := p.text.str

/-- Whether the path starts at the root. -/
def isAbsolute (p : Path) : Bool := p.anchor != .relative

/-- The path `q` seen from `p`; an absolute path is the same from everywhere. -/
def join (p q : Path) : Path :=
  if q.isAbsolute then q else ⟨p.anchor, p.parts ++ q.parts⟩

/-- The path with the given spelling seen from `p`. -/
def child (p : Path) (s : Text) : Path := p.join (ofText s)

/-- The last part of a path, or nothing. -/
def name (p : Path) : Text := p.parts.getLastD []

/-- The path without its last part. -/
def parent (p : Path) : Path := ⟨p.anchor, p.parts.dropLast⟩

/-- The path with `ending` written behind its name, when it has a name. -/
def extend? (p : Path) (ending : Text) : Option Path :=
  if p.name.isEmpty then none
  else some ⟨p.anchor, p.parts.dropLast ++ [p.name ++ ending]⟩

/-- The place one part further on, by the spelling alone. -/
def follow (l : Location) (part : Text) : Location :=
  if part = up then l.dropLast else l ++ [part]

/-- The place that a path means when each `..` undoes the part before it. -/
def resolve (workingDirectory : Location) (p : Path) : Location :=
  p.parts.foldl follow (if p.isAbsolute then [] else workingDirectory)

/-- The path to a place from the working directory when the path lies below it, otherwise the path
itself. -/
def shown (workingDirectory : Location) (p : Path) : Path :=
  if p.anchor = .root ∧ p.parts.take workingDirectory.length = workingDirectory then
    ⟨.relative, p.parts.drop workingDirectory.length⟩
  else p

/-- The spelling of a path in messages that show it as a value. -/
def quotedValue (p : Path) : String := s!"PosixPath({p.text.quoted.str})"

/-! ## Lemmas -/

@[simp] theorem join_here (p : Path) : p.join here = p := by
  simp [join, here, isAbsolute]

theorem join_of_isAbsolute {p q : Path} (h : q.isAbsolute = true) : p.join q = q := by
  simp [join, h]

theorem parts_join {p q : Path} (h : q.isAbsolute = false) :
    (p.join q).parts = p.parts ++ q.parts := by
  simp [join, h]

theorem resolve_join {p q : Path} (h : q.isAbsolute = false) (workingDirectory : Location) :
    (p.join q).resolve workingDirectory = q.parts.foldl follow (p.resolve workingDirectory) := by
  have hj : p.join q = ⟨p.anchor, p.parts ++ q.parts⟩ := by simp [join, h]
  rw [hj]
  simp [resolve, isAbsolute, List.foldl_append]

end Path

end PageAssembly
