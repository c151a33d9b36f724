import PageAssembly.Job
import PageAssembly.Markup.Layout
import PageAssembly.Text.Chunks

/-!
# Publishing indented markup

Indented markup is written to a temporary file beside its target and moved over the target when the
whole input has been read, so a reader of the target never sees a part of it.

## Main definitions

* `ChunkSource` — chunks of markup and what breaks them off
* `Publication.publish` — writes the layout of a source to a path

## Design notes

When a directory or the temporary file cannot be made, the markup cannot be read, or the move fails,
the temporary file is removed and the failure names the target and the cause.  If the temporary file
cannot be removed either, that second failure is the one reported.  Any other failure of the source
leaves the temporary file with what has been written.
-/

namespace PageAssembly

/-- Markup that arrives in chunks. -/
structure ChunkSource where
  /-- The chunks that arrive. -/
  chunks : List Text
  /-- What breaks the source off behind them. -/
  failure : Option Failure := none

namespace ChunkSource

/-- What is known of the layout when the source ends or breaks off. -/
def layout (source : ChunkSource) : Markup.Layout :=
  if source.failure.isSome then Markup.layoutBroken source.chunks else Markup.layout source.chunks

/-- The chunks of a stored text. -/
def ofStored (bytes : List UInt8) : ChunkSource :=
  match Stored.streamed bytes with
  | .ok s => { chunks := Text.chunksOf Text.chunkSize s }
  | .error fault => { chunks := [], failure := some (.encoding fault) }

end ChunkSource

namespace Publication

/-- What the temporary file's name ends with. -/
def temporaryEnding : Text := ['.', 't', 'm', 'p']

/-- The fault in publishing that a failure stands for, if it is one. -/
def faultOf? : Failure → Option PublishingFault
  | .files f => if f.isSystem then some (.file f) else none
  | .malformed m => some (.markup m)
  | _ => none

/-- Writes the layout of a source to the open temporary file and reports the tags left open. -/
def fill (source : ChunkSource) (temporary : Path) : Job Unit := do
  let layout := source.layout
  Job.change (·.write temporary (Utf8.encode layout.text))
  match layout.ending, source.failure with
  | .error malformed, _ => throw (.malformed malformed)
  | .ok _, some failure => throw failure
  | .ok tags, none => tags.forM fun tag => Job.note (.unclosedTag tag)

/-- Makes the directories of the target and fills the temporary file. -/
def prepare (source : ChunkSource) (target temporary : Path) : Job Unit := do
  let (t, made) := (← Job.tree).makeDirectories target.parent
  Job.setTree t
  Job.ofFiles made
  Job.change (·.write temporary [])
  fill source temporary

/-- Removes the temporary file if it is there. -/
def cleanUp (temporary : Path) : Job Unit := do
  match (← Job.tree).remove temporary with
  | .ok t => Job.setTree t
  | .error (.reaching .notFound _) => return
  | .error f => throw (.files f)

/-- Writes the layout of a source to a path, which it gives back. -/
def publish (source : ChunkSource) (target : Path) : Job Path := do
  match target.extend? temporaryEnding with
  | none => throw (.nameless target)
  | some temporary =>
    try
      prepare source target temporary
      Job.change (·.rename temporary target)
    catch failure =>
      match faultOf? failure with
      | none => throw failure
      | some fault =>
        cleanUp temporary
        throw (.publishing target fault)
    return target

end Publication

end PageAssembly
