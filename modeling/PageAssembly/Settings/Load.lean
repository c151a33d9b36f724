import PageAssembly.Settings.Basic
import PageAssembly.Survey
import PageAssembly.Yaml.Document

/-!
# Settings from a file

## Main definitions

* `Settings.Overrides` — directories that prevail over those in a file
* `Settings.ofValue` — settings from the value of a document
* `Settings.load` — settings from a file of a file tree

## Design notes

A value that is absent or null leaves a directory or a list at its default.  The two names have to
be texts when they are given at all.  A directory that is overridden is not looked at in the file.
Directories in a file are seen from the directory of the file.

A document that holds nothing is a mapping without entries, whatever its kind is.
-/

namespace PageAssembly.Settings

open Yaml (Value)

/-- Directories that prevail over those in a file. -/
structure Overrides where
  /-- The source directory. -/
  sourceDir : Option Path := none
  /-- The output directory. -/
  outputDir : Option Path := none
  deriving DecidableEq, Repr

/-- The value of a text that is not blank. -/
def nonBlank? : Value → Option Text
  | .text s => if Text.isAllBlank s then none else some s
  | _ => none

/-- The values of a list of texts. -/
def texts? : List Value → Option (List Text)
  | [] => some []
  | .text s :: values => (texts? values).map (s :: ·)
  | _ :: _ => none

/-- The entries of a document that is a mapping or holds nothing. -/
def entriesOf (file : Path) (document : Value) : Except SettingsFault (List (Value × Value)) :=
  if document.isEmpty then .ok []
  else
    match document with
    | .mapping entries => .ok entries
    | _ => .error (.notMapping file)

/-- A directory, seen from the directory `base`. -/
def directory (base : Path) : Option Value → Except SettingsFault (Option Path)
  | none | some .null => .ok none
  | some value =>
    match nonBlank? value with
    | some s => .ok (some (base.child s))
    | none => .error (.notPath value.shown)

/-- A directory that may be overridden. -/
def directoryUnless (override : Option Path) (base : Path) (value : Option Value) :
    Except SettingsFault (Option Path) :=
  match override with
  | some p => .ok (some p)
  | none => directory base value

/-- A name. -/
def name (key : Text) : Option Value → Except SettingsFault (Option Text)
  | none => .ok none
  | some value =>
    match nonBlank? value with
    | some s => .ok (some s)
    | none => .error (.notText key)

/-- A list of texts. -/
def texts (key : Text) : Option Value → Except SettingsFault (Option (List Text))
  | none | some .null => .ok none
  | some (.list values) =>
    match texts? values with
    | some ts => .ok (some ts)
    | none => .error (.notTexts key)
  | some _ => .error (.notTexts key)

/-- The key of the source directory. -/
def sourceKey : Text := "source_dir".toList

/-- The key of the output directory. -/
def outputKey : Text := "output_dir".toList

/-- The key of the component directory's name. -/
def componentsKey : Text := "components_dir".toList

/-- The key of the root document's name. -/
def indexKey : Text := "index_file".toList

/-- The key of the endings of files that are copied. -/
def suffixesKey : Text := "asset_suffixes".toList

/-- The key of the keywords of directories that are copied. -/
def keywordsKey : Text := "asset_dir_keywords".toList

/-- Settings from the entries of a document whose directories are seen from `base`. -/
def ofEntries (base : Path) (overrides : Overrides) (entries : List (Value × Value)) :
    Except SettingsFault Settings := do
  let value := Value.get? entries
  let sourceDir ← directoryUnless overrides.sourceDir base (value sourceKey)
  let outputDir ← directoryUnless overrides.outputDir base (value outputKey)
  return make sourceDir outputDir
    (← name componentsKey (value componentsKey)) (← name indexKey (value indexKey))
    (← texts suffixesKey (value suffixesKey)) (← texts keywordsKey (value keywordsKey))

/-- Settings from the value of the document in a file. -/
def ofValue (file : Path) (overrides : Overrides) (document : Value) :
    Except SettingsFault Settings :=
  (entriesOf file document).bind (ofEntries file.parent overrides)

/-! ## Files -/

/-- The name of the file that is looked for in the source directory. -/
def fileName : Text := "components.yaml".toList

/-- The file with the settings: the given one, which has to be there, or the one in the source
directory, if there is one. -/
def file? (t : FileTree) (path : Option Path) (overrides : Overrides) : Noting (Option Path) :=
  match path with
  | some p => do
    if ← Noting.ofFiles .files (t.isThere p) then return some p else throw (.settingsMissing p)
  | none => do
    let p := (overrides.sourceDir.getD .here).child fileName
    return if ← Noting.ofFiles .files (t.isFile p) then some p else none

/-- The value of the document in a file. -/
def document (t : FileTree) (file : Path) : Noting Value := do
  match Stored.streamed (← Noting.ofFiles .files (t.read file)) with
  | .error fault => throw (.encoding fault)
  | .ok s =>
    match Value.ofText s with
    | .ok v => return v
    | .error fault => throw (.yaml fault)

/-- Goes on with settings, or fails. -/
def orFail : Except SettingsFault Settings → Noting Settings
  | .ok s => return s
  | .error fault => throw (.settings fault)

/-- The settings of a site. -/
def load (t : FileTree) (path : Option Path) (overrides : Overrides) : Noting Settings := do
  match ← file? t path overrides with
  | some file => orFail (ofValue file overrides (← document t file))
  | none => orFail (ofEntries .here overrides [])

end PageAssembly.Settings
