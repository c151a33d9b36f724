import PageAssembly.Command.Words
import PageAssembly.Settings.Load
import PageAssembly.Site

/-!
# Running commands

## Main definitions

* `Command.Outcome` — what a run gives back
* `Command.run` — runs a command
* `Command.runWords` — runs the command that words ask for

## Design notes

A failure is reported as the last notice.  What was printed before it stays.
-/

namespace PageAssembly

namespace Command

/-- What a run gives back. -/
structure Outcome where
  /-- Zero for success, one for a failure, two when the words are no command. -/
  exit : Nat
  /-- What is printed. -/
  output : Text
  /-- What is reported. -/
  notices : List Notice
  deriving DecidableEq, Repr

/-- What is printed, and the failure behind it. -/
structure Printed where
  /-- What is printed. -/
  output : Text
  /-- The failure behind it. -/
  failure : Option Failure := none

/-- The line that tells where something was written. -/
def wroteLine (workingDirectory : Location) (p : Path) : Text :=
  "wrote ".toList ++ (p.shown workingDirectory).text ++ ['\n']

/-- The line for a component and what it refers to. -/
def graphLine (component : Text) (names : List Text) : Text :=
  component ++ [':', ' '] ++ (if names.isEmpty then ['-'] else [',', ' '].intercalate names) ++ ['\n']

/-- The lines for all components, in ascending order. -/
def graphLines (d : Dependencies) : Text :=
  (d.entries.mergeSort fun a b => Text.le a.1 b.1).flatMap fun (component, names) =>
    graphLine component names

/-- The directory that a file is published in when none is given. -/
def outputBeside (file : Path) : Path := Settings.outputOf file.parent

/-- Prints where something was written. -/
def printWritten (p : Path) : Job Printed := do
  return { output := wroteLine (← Job.tree).workingDirectory p }

/-- Prints what refers to what, and fails behind that when a component reaches itself. -/
def printGraph (s : Settings) : Job Printed := do
  let d ← Job.reading (Dependencies.survey · s.componentsPath)
  try
    Job.reading fun _ => d.validate
    return { output := graphLines d }
  catch failure => return { output := graphLines d, failure := some failure }

/-- What a command does. -/
def job : Command → Job Printed
  | build sourceDir outputDir config _ => do
    let s ← Job.reading (Settings.load · config { sourceDir, outputDir })
    printWritten (← Site.compile s)
  | prettify file outputDir _ => do
    printWritten (← Site.indent file (outputDir.getD (outputBeside file)))
  | graph sourceDir config => do
    let s ← Job.reading (Settings.load · config { sourceDir })
    printGraph s

/-- The least weight of what a command reports. -/
def threshold (c : Command) : Level := if c.isVerbose then .debug else .info

/-- The notices of at least the given weight. -/
def heard (threshold : Level) (notices : List Notice) : List Notice :=
  notices.filter fun n => threshold.rank ≤ n.level.rank

/-- Runs a command on a file tree; gives the tree after it. -/
def run (c : Command) (t : FileTree) : Outcome × FileTree :=
  let (result, s) := c.job.runOn { tree := t }
  let printed := match result with
    | .ok printed => printed
    | .error failure => { output := [], failure := some failure }
  let notices := s.notices.toList ++ printed.failure.toList.map .failed
  ({ exit := if printed.failure.isSome then 1 else 0
     output := printed.output
     notices := heard c.threshold notices }, s.tree)

/-- Runs the command that words ask for; words that are no command change nothing. -/
def runWords (environment : List (Text × Text)) (words : List Text) (t : FileTree) :
    Outcome × FileTree :=
  match ofWords environment words with
  | .ok c => c.run t
  | .error _ => ({ exit := 2, output := [], notices := [] }, t)

end Command

end PageAssembly
