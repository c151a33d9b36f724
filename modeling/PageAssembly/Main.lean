import PageAssembly.Command.Run
import PageAssembly.FileTree.Changes

/-!
# The program

Reads the part of the file system that a command works on, runs the command on it as a file tree,
and carries out what has changed.  What is printed goes to the standard output and what is reported
to the standard error.
-/

namespace PageAssembly.Program

/-- The spelling of a location. -/
def spelling (l : Location) : String := (Path.text ⟨.root, l⟩).str

/-- The entries at a location and below it, added to those found before.  A linked directory is not
entered. -/
partial def readBelow (found : List (Location × Entry)) (l : Location) :
    IO (List (Location × Entry)) := do
  let path := (← IO.currentDir) / spelling l
  if !(← path.pathExists) then return (l, .dangling) :: found
  if ← path.isDir then
    let mut found := (l, .directory) :: found
    for item in ← path.readDir do
      let isLinked := (← item.path.symlinkMetadata).type matches .symlink
      if !(isLinked && (← item.path.isDir)) then
        found ← readBelow found (l ++ [item.fileName.toList])
    return found
  else
    return (l, .file (← IO.FS.readBinFile path).toList) :: found

/-- The tree with everything at a location and below it, and the directories above it. -/
def readInto (t : FileTree) (l : Location) : IO FileTree := do
  let path := (← IO.currentDir) / spelling l
  if (t.lookup l).isSome || !(← path.pathExists) then return t
  let above := ((List.range l.length).map l.take).filter fun k => (t.lookup k).isNone
  let found ← readBelow [] l
  let known := t.entries.filter fun (k, _) => !(l.isPrefixOf k)
  return { t with entries := found ++ above.map (·, Entry.directory) ++ known }

/-- The tree with everything that the given paths lead to. -/
def readAll (t : FileTree) (paths : List Path) : IO FileTree :=
  (paths.map (·.resolve t.workingDirectory)).foldlM readInto t

/-- The paths that a command names. -/
def pathsOf : Command → List Path
  | .build sourceDir outputDir config _ => [sourceDir, outputDir, config].filterMap id
  | .prettify file outputDir _ => file :: (outputDir.getD (Command.outputBeside file)) :: []
  | .graph sourceDir config => [sourceDir, config].filterMap id

/-- The paths that the settings of a command name. -/
def settingsPathsOf (t : FileTree) : Command → List Path
  | .prettify .. => []
  | .build sourceDir outputDir config _ => named config { sourceDir, outputDir }
  | .graph sourceDir config => named config { sourceDir }
where
  /-- The paths of the settings that are found. -/
  named (config : Option Path) (overrides : Settings.Overrides) : List Path :=
    match ((Settings.load t config overrides).run.run #[]).1 with
    | .ok s => [s.sourceDir, s.outputDir, s.componentsPath, s.indexPath, s.targetPath]
    | .error _ => []

/-- The part of the file system that a command works on. -/
def readTree (words : List Text) (environment : List (Text × Text)) : IO FileTree := do
  let here := (Path.ofText (← IO.currentDir).toString.toList).parts
  let t ← readInto { workingDirectory := here } here
  match Command.ofWords environment words with
  | .error _ => return t
  | .ok c =>
    let t ← readAll t (pathsOf c)
    readAll t (settingsPathsOf t c)

/-- Carries out what has changed in a file tree. -/
def writeChanges (before after : FileTree) : IO Unit := do
  for l in FileTree.removed before after do
    IO.FS.removeFile (spelling l)
  for (l, e) in FileTree.changed before after do
    match e with
    | .directory => IO.FS.createDirAll (spelling l)
    | .file content => IO.FS.writeBinFile (spelling l) ⟨content.toArray⟩
    | .dangling => pure ()

/-- The variables of the environment that commands use. -/
def readEnvironment : IO (List (Text × Text)) := do
  let known : List Parameter := [.sourceDir, .outputDir, .config, .file, .verbose]
  let found ← known.mapM fun p => do
    return (← IO.getEnv p.environmentName.str).map fun value => (p.environmentName, value.toList)
  return found.filterMap id

/-- Runs the command that words ask for. -/
def run (words : List String) : IO UInt32 := do
  let words := words.map String.toList
  let environment ← readEnvironment
  if let .error misuse := Command.ofWords environment words then IO.eprintln misuse.message
  let before ← readTree words environment
  let (outcome, after) := Command.runWords environment words before
  writeChanges before after
  IO.print outcome.output.str
  for n in outcome.notices do
    IO.eprintln n.line
  return outcome.exit.toUInt32

end PageAssembly.Program

/-- Runs the program. -/
def main (words : List String) : IO UInt32 := PageAssembly.Program.run words
