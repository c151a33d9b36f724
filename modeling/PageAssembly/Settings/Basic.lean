import PageAssembly.Path

/-!
# Settings of a site

Where a site is read from, where it is written to, and which files are copied.

## Main definitions

* `Settings` — the settings
* `Settings.make` — settings with defaults for what is not given
-/

namespace PageAssembly

/-- The settings of a site. -/
structure Settings where
  /-- The directory that holds the root document and the component directory. -/
  sourceDir : Path
  /-- The directory that is written to. -/
  outputDir : Path
  /-- The component directory, seen from the source directory. -/
  componentsDir : Text
  /-- The root document, seen from the source directory. -/
  indexFile : Text
  /-- Files of the source directory whose names end with one of these are copied. -/
  assetSuffixes : List Text
  /-- Directories of the source directory whose names hold one of these are copied. -/
  assetKeywords : List Text
  deriving DecidableEq, Repr

namespace Settings

/-- The default name of the component directory. -/
def defaultComponentsDir : Text := "components".toList

/-- The default name of the root document. -/
def defaultIndexFile : Text := "index.html".toList

/-- The default name of the output directory, seen from the source directory. -/
def defaultOutputDir : Text := "output".toList

/-- The default endings of files that are copied. -/
def defaultSuffixes : List Text := [".js".toList, ".css".toList, ".html".toList]

/-- The default keywords of directories that are copied. -/
def defaultKeywords : List Text := ["js".toList, "css".toList, "html".toList]

/-- The output directory of a source directory when none is given. -/
def outputOf (sourceDir : Path) : Path := sourceDir.child defaultOutputDir

/-- Settings with defaults for what is not given. -/
def make (sourceDir outputDir : Option Path := none) (componentsDir indexFile : Option Text := none)
    (assetSuffixes assetKeywords : Option (List Text) := none) : Settings where
  sourceDir := sourceDir.getD .here
  outputDir := outputDir.getD (outputOf (sourceDir.getD .here))
  componentsDir := componentsDir.getD defaultComponentsDir
  indexFile := indexFile.getD defaultIndexFile
  assetSuffixes := assetSuffixes.getD defaultSuffixes
  assetKeywords := assetKeywords.getD defaultKeywords

/-- The component directory. -/
def componentsPath (s : Settings) : Path := s.sourceDir.child s.componentsDir

/-- The root document. -/
def indexPath (s : Settings) : Path := s.sourceDir.child s.indexFile

/-- The file that the compiled root document is written to. -/
def targetPath (s : Settings) : Path := s.outputDir.child s.indexFile

end Settings

end PageAssembly
