import PageAssembly.Assets
import PageAssembly.Comment
import PageAssembly.Expansion
import PageAssembly.Publication

/-!
# Compiling a site

A site is compiled by replacing the references of its root document, publishing the indented result
and copying the assets.

## Main definitions

* `Site.compile` — compiles the site with the given settings
* `Site.indent` — publishes a single file, indented and otherwise as it is

## Design notes

The dependencies are validated before anything is replaced, and everything is replaced before
anything is written, so a site that cannot be compiled leaves the file tree as it was.
-/

namespace PageAssembly.Site

/-- The text of the root document. -/
def readIndex (t : FileTree) (path : Path) : Noting Text := do
  match Stored.whole (← Noting.ofFiles (.document path) (t.read path)) with
  | .ok s => return s
  | .error fault => throw (.encoding fault)

/-- The root document without comments and with its references replaced, starting from nothing
remembered. -/
def expandIndex (t : FileTree) (s : Settings) (source : Text) : Noting Text := do
  let (result, state) := (Expansion.document t s.componentsPath s.indexFile
    (Comment.strip source)).run.run { notices := ← get }
  set state.notices
  MonadExcept.ofExcept result

/-- The markup to be published. -/
def assemble (t : FileTree) (s : Settings) : Noting Text := do
  let source ← readIndex t s.indexPath
  let _ ← Dependencies.surveyValid t s.componentsPath
  expandIndex t s source

/-- Compiles a site; gives the path of the compiled root document. -/
def compile (s : Settings) : Job Path := do
  Job.note (.compiling s.sourceDir)
  let markup ← Job.reading (assemble · s)
  let written ← Publication.publish { chunks := [markup] } s.targetPath
  Job.note (.wrote written)
  let copied ← Assets.copyAll s
  Job.note (.copied copied.length)
  Job.note .done
  return written

/-- Publishes a file, indented and otherwise as it is, under the same name in a directory. -/
def indent (path directory : Path) : Job Path := do
  Job.note (.indenting path directory)
  let bytes ← Job.reading fun t => Noting.ofFiles (.document path) (t.read path)
  let written ← Publication.publish (ChunkSource.ofStored bytes) (directory.child path.name)
  Job.note (.wrote written)
  return written

end PageAssembly.Site
