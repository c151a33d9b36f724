import PageAssembly.Dependencies
import PageAssembly.Notice
import PageAssembly.Reference
import PageAssembly.Text.Lines

/-!
# Surveying a component directory

Every file of the component directory whose name ends with `.html` is a component, named by the rest
of its name.  The survey reads them all and validates what refers to what.

## Main definitions

* `Noting` — an operation that reads files, reports notices and may fail
* `Fragment.path` — where a component's markup is stored
* `Dependencies.survey` — the dependency map of a component directory
* `Dependencies.validate` — fails when a component reaches itself
* `Dependencies.surveyValid` — both in one step

## Design notes

The directory is read in ascending order of file names, which decides the order of the map, of the
notices and of the failures.  A directory is no component, whatever its name.  No partial map is
given: the first file that cannot be read ends the survey.
-/

namespace PageAssembly

/-- An operation that reports notices and may fail; the notices before a failure stay. -/
abbrev Noting := ExceptT Failure (StateM Notices)

namespace Noting

/-- Reports a notice. -/
def note (n : Notice) : Noting Unit := modify (·.push n)

/-- Goes on with a result, or ends with a failure that is derived from the file failure. -/
def ofFiles {α : Type} (failure : FileFailure → Failure) : Except FileFailure α → Noting α
  | .ok a => pure a
  | .error f => throw (if f.isSystem then failure f else .files f)

end Noting

namespace Fragment

/-- What the name of a fragment's file ends with. -/
def ending : Text := ['.', 'h', 't', 'm', 'l']

/-- The file that a component's markup is looked for in. -/
def path (directory : Path) (component : Text) : Path := directory.child (component ++ ending)

end Fragment

namespace Dependencies

/-- The names that the lines of a stored fragment refer to, in ascending order. -/
def referencesOf (stored : Stored (List Text)) : List Text :=
  Text.sortUnique (stored.delivered.flatMap Reference.names)

/-- Reads one component; gives nothing when a directory stands in the place of its fragment. -/
def surveyFile (t : FileTree) (directory : Path) (component : Text) :
    Noting (Option (Text × List Text)) := do
  let path := Fragment.path directory component
  if ← Noting.ofFiles .files (t.isDirectory path) then return none
  let stored := Stored.lines (← Noting.ofFiles (.components path) (t.read path))
  match stored.fault with
  | some fault => throw (.encoding fault)
  | none =>
    let names := referencesOf stored
    Noting.note (.references component names)
    return some (component, names)

/-- Reads the components among the files with the given names. -/
def surveyFiles (t : FileTree) (directory : Path) :
    List Text → Noting (List (Text × List Text))
  | [] => return []
  | name :: names => do
    let found ← match Text.dropEnd? name Fragment.ending with
      | some component => surveyFile t directory component
      | none => pure none
    let rest ← surveyFiles t directory names
    return found.toList ++ rest

/-- The dependency map of a component directory. -/
def survey (t : FileTree) (directory : Path) : Noting Dependencies := do
  let names ← Noting.ofFiles (.components directory) (t.list directory)
  return { entries := ← surveyFiles t directory names }

/-- Fails when a component reaches itself, after a notice for each one that does. -/
def validate (d : Dependencies) : Noting Unit := do
  d.cyclic.forM fun component => Noting.note (.dependsOnItself component)
  if !d.cyclic.isEmpty then throw (.circular (Text.sortUnique d.cyclic))

/-- The dependency map of a component directory in which no component reaches itself. -/
def surveyValid (t : FileTree) (directory : Path) : Noting Dependencies := do
  let d ← survey t directory
  d.validate
  return d

end Dependencies

end PageAssembly
