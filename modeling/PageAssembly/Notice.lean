import PageAssembly.Failure

/-!
# Notices

What an operation reports while it runs.

## Main definitions

* `Notice` — the things that are reported
* `Notice.level`, `Notice.message` — their weight and their wording
-/

namespace PageAssembly

/-- The weight of a notice. -/
inductive Level where
  /-- For following what happens in detail. -/
  | debug
  /-- For following what happens. -/
  | info
  /-- Something is missing or was left out. -/
  | warning
  /-- Something makes the result unusable. -/
  | error
  deriving DecidableEq, Repr

namespace Level

/-- The weights from the lightest to the heaviest. -/
def rank : Level → Nat
  | .debug => 0
  | .info => 1
  | .warning => 2
  | .error => 3

/-- The word for a weight. -/
def name : Level → String
  | .debug => "DEBUG"
  | .info => "INFO"
  | .warning => "WARNING"
  | .error => "ERROR"

end Level

/-- What is reported. -/
inductive Notice where
  /-- A component was read and refers to the given names. -/
  | references (component : Text) (names : List Text)
  /-- A component reaches itself. -/
  | dependsOnItself (component : Text)
  /-- A component's markup was known already. -/
  | remembered (component : Text)
  /-- A reference on the given line of a source leads to no fragment. -/
  | missingFragment (component : Text) (line : Int) (source : Text) (directory : Path)
  /-- A name on the given line of a source is not spelled as a reference. -/
  | notSelfClosing (component : Text) (line : Int) (source : Text)
  /-- A tag is open at the end of the markup. -/
  | unclosedTag (tag : Text)
  /-- An asset was left out. -/
  | notCopied (source target : Path) (reason : FileFailure)
  /-- The assets of a directory were left out. -/
  | notListed (directory : Path) (reason : FileFailure)
  /-- A site is being compiled. -/
  | compiling (directory : Path)
  /-- A file is being indented. -/
  | indenting (path directory : Path)
  /-- A file was written. -/
  | wrote (path : Path)
  /-- Assets were copied. -/
  | copied (count : Nat)
  /-- A site was compiled. -/
  | done
  /-- A command failed. -/
  | failed (failure : Failure)
  deriving DecidableEq, Repr

/-- The weight of a notice. -/
def Notice.level : Notice → Level
  | .references .. | .remembered .. | .notSelfClosing .. => .debug
  | .compiling .. | .indenting .. | .wrote .. | .copied .. | .done => .info
  | .missingFragment .. | .unclosedTag .. | .notCopied .. | .notListed .. => .warning
  | .dependsOnItself .. | .failed .. => .error

/-- The wording of a notice. -/
def Notice.message : Notice → String
  | .references component names =>
    let shown := if names.isEmpty then "nothing" else (Text.quotedList names).str
    s!"component '{component.str}' references {shown}"
  | .dependsOnItself component => s!"component '{component.str}' is dependent on itself"
  | .remembered component => s!"component '{component.str}' served from cache"
  | .missingFragment component line source directory =>
    s!"component '{component.str}' found on line {line} of {source.str} " ++
      s!"but no '{component.str}.html' was found in '{directory.str}'"
  | .notSelfClosing component line source =>
    s!"reference to '{component.str}' on line {line} of {source.str} is not a self-closing tag"
  | .unclosedTag tag => s!"Unclosed tag: '{tag.str}'. Output may be inconsistent."
  | .notCopied source target reason =>
    s!"could not copy '{source.str}' to '{target.str}': {reason.message}"
  | .notListed directory reason =>
    s!"could not list assets in '{directory.str}': {reason.message}"
  | .compiling directory => s!"Compiling '{directory.str}'..."
  | .indenting path directory =>
    s!"Prettifying '{path.str}' to output directory '{directory.str}'"
  | .wrote path => s!"wrote {path.str}"
  | .copied count => s!"copied {count} static asset(s)"
  | .done => "Done!"
  | .failed failure => failure.message

/-- A notice as a line on its own. -/
def Notice.line (n : Notice) : String := s!"{n.level.name}: {n.message}"

/-- Notices in the order of reporting. -/
abbrev Notices := Array Notice

end PageAssembly
