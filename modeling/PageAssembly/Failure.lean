import PageAssembly.FileTree.Access
import PageAssembly.Markup.Malformed
import PageAssembly.Text.Utf8
import PageAssembly.Yaml.Fault

/-!
# Failures

What ends an operation before it is finished.  Recoverable problems are notices and not failures.

## Main definitions

* `SettingsFault` — what is wrong with a settings file that could be read
* `Failure` — every cause for which an operation ends
* `Failure.message` — its wording

## Main statements

* `Failure.run_bind` — a failure ends a sequence of operations
-/

namespace PageAssembly

/-- What is wrong with settings. -/
inductive SettingsFault where
  /-- The file holds something else than a mapping. -/
  | notMapping (path : Path)
  /-- A value that is no path, as it is shown. -/
  | notPath (shown : Text)
  /-- A value that is no text, or a blank one. -/
  | notText (key : Text)
  /-- A value that is no list of texts. -/
  | notTexts (key : Text)
  deriving DecidableEq, Repr

/-- The wording of a fault in settings. -/
def SettingsFault.message : SettingsFault → String
  | .notMapping path => s!"Top-level YAML structure in '{path.str}' must be a mapping."
  | .notPath shown => s!"Expected a non-empty path string, got {shown.str}."
  | .notText key => s!"'{key.str}' must be a non-empty string."
  | .notTexts key => s!"'{key.str}' must be a list of strings."

/-- Why a layout could not be published. -/
inductive PublishingFault where
  /-- A file operation failed. -/
  | file (failure : FileFailure)
  /-- The markup cannot be read. -/
  | markup (malformed : Markup.Malformed)
  deriving DecidableEq, Repr

/-- The wording of a fault in publishing. -/
def PublishingFault.message : PublishingFault → String
  | .file f => f.message
  | .markup m => m.message

/-- Why an operation ends before it is finished. -/
inductive Failure where
  /-- Components depend on themselves. -/
  | circular (components : List Text)
  /-- The component directory or a fragment in it cannot be read. -/
  | components (path : Path) (reason : FileFailure)
  /-- A root document cannot be read. -/
  | document (path : Path) (reason : FileFailure)
  /-- A layout cannot be published. -/
  | publishing (path : Path) (reason : PublishingFault)
  /-- Markup cannot be read. -/
  | malformed (cause : Markup.Malformed)
  /-- A file is not well-formed UTF-8. -/
  | encoding (fault : Utf8.Fault)
  /-- A file operation failed. -/
  | files (failure : FileFailure)
  /-- A path without a name stands where a file is to be written. -/
  | nameless (path : Path)
  /-- The settings are not valid. -/
  | settings (fault : SettingsFault)
  /-- The settings file that was asked for is not there. -/
  | settingsMissing (path : Path)
  /-- The settings file is no YAML document. -/
  | yaml (fault : Yaml.Fault)
  deriving DecidableEq, Repr

/-- The wording of a failure. -/
def Failure.message : Failure → String
  | .circular _ => "could not compile: one or more components have circular dependencies"
  | .components path reason => s!"Could not read components from '{path.str}': {reason.message}"
  | .document path reason => s!"Could not open file '{path.str}': {reason.message}"
  | .publishing path reason => s!"Failed to prettify '{path.str}': {reason.message}"
  | .malformed cause => cause.message
  | .encoding fault => fault.message
  | .files failure => failure.message
  | .nameless path => s!"{path.quotedValue} has an empty name"
  | .settings fault => fault.message
  | .settingsMissing path => s!"Configuration file '{path.str}' not found."
  | .yaml (.scalar fault) => fault.message
  | .yaml _ => "<yaml error>"

/-- A result goes on with the state behind it, and a failure ends the sequence with that state. -/
theorem Failure.run_bind {σ α β : Type} (op : ExceptT Failure (StateM σ) α)
    (next : α → ExceptT Failure (StateM σ) β) (s : σ) :
    (op >>= next).run.run s = match op.run.run s with
      | (.ok a, s') => (next a).run.run s'
      | (.error failure, s') => (.error failure, s') := by
  simp only [ExceptT.run_bind, StateT.run_bind]
  rcases op.run.run s with ⟨_ | _, _⟩ <;> rfl

end PageAssembly
