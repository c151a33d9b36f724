import PageAssembly.Job
import PageAssembly.Settings.Basic

/-!
# Copying static assets

Files and directories of the source directory are copied to the output directory as they are.

## Main definitions

* `Assets.copyFile` — copies one file
* `Assets.copyDirectory` — copies a directory with all that is below it
* `Assets.copyAll` — copies what the settings select

## Design notes

A file that cannot be copied, or a directory that cannot be read or made, is reported and left out;
the others are copied all the same.  Names are taken in ascending order at every level.

A directory is copied while it is read, so one that is copied into itself is met again below the
copy.  Each level makes the path longer and no path is longer than `FileTree.pathLimit`, which
bounds the number of levels.

The root document, the component directory and the output directory are left out where they stand
directly in the source directory; places are compared by the spelling of their paths.
-/

namespace PageAssembly.Assets

/-- Copies a file; gives the target when that was possible. -/
def copyFile (source target : Path) : Job (Option Path) := do
  match (← Job.tree).copy source target with
  | .ok t =>
    Job.setTree t
    return some target
  | .error f =>
    if !f.isSystem then throw (.files f)
    Job.note (.notCopied source target f)
    return none

/-- Lists a directory and makes the one it is copied to; gives nothing when that is not
possible. -/
def openDirectory (source target : Path) : Job (Option (List Text)) := do
  match (← Job.tree).list source with
  | .error f =>
    if !f.isSystem then throw (.files f)
    Job.note (.notCopied source target f)
    return none
  | .ok names =>
    let (t, made) := (← Job.tree).makeDirectories target
    Job.setTree t
    match made with
    | .error f =>
      if !f.isSystem then throw (.files f)
      Job.note (.notCopied source target f)
      return none
    | .ok () => return some names

/-- Copies a directory of which at most `levels` levels are below each other. -/
def copyLevels : (levels : Nat) → (source target : Path) → Job (List Path)
  | 0, source, target => do
    Job.note (.notCopied source target (.reaching .nameTooLong source))
    return []
  | levels + 1, source, target => do
    let names ← openDirectory source target
    let copied ← (names.getD []).mapM fun name => do
      let entry := source.join ⟨.relative, [name]⟩
      let destination := target.join ⟨.relative, [name]⟩
      if ← Job.ofFiles ((← Job.tree).isDirectory entry) then copyLevels levels entry destination
      else return (← copyFile entry destination).toList
    return copied.flatten

/-- Copies a directory with all that is below it; gives the files written. -/
def copyDirectory (source target : Path) : Job (List Path) :=
  copyLevels FileTree.pathLimit source target

/-- The place that a path means, for comparing places. -/
def placeOf (t : FileTree) (p : Path) : Except FileFailure Location :=
  if p.text.elem '\x00' then .error .embeddedNul else .ok (p.resolve t.workingDirectory)

/-- Copies one entry of the source directory if the settings select it. -/
def copyEntry (s : Settings) (excluded : List Location) (name : Text) : Job (List Path) := do
  let entry := s.sourceDir.join ⟨.relative, [name]⟩
  let target := s.outputDir.join ⟨.relative, [name]⟩
  let t ← Job.tree
  if (← Job.ofFiles (placeOf t entry)) ∈ excluded then return []
  if ← Job.ofFiles (t.isDirectory entry) then
    if s.assetKeywords.any (Text.contains name) then copyDirectory entry target else return []
  else if s.assetSuffixes.any (Text.endsWith name) then
    return (← copyFile entry target).toList
  else return []

/-- Copies the entries of the source directory that the settings select; gives the files
written. -/
def copyAll (s : Settings) : Job (List Path) := do
  let t ← Job.tree
  let excluded ← [s.indexPath, s.componentsPath, s.outputDir].mapM fun p =>
    Job.ofFiles (placeOf t p)
  match t.list s.sourceDir with
  | .error f =>
    if !f.isSystem then throw (.files f)
    Job.note (.notListed s.sourceDir f)
    return []
  | .ok names =>
    let copied ← names.mapM (copyEntry s excluded)
    return copied.flatten

end PageAssembly.Assets
