import PageAssembly.Text.Blank

/-!
# Tokens of YAML

The smallest meaningful parts of a document.

## Main definitions

* `Yaml.Collection` — the two kinds of collections
* `Yaml.Directive` — what stands in front of a document
* `Yaml.Token` — the tokens

## Design notes

Block collections have a start and an end among the tokens although nothing is written for them:
the columns of what is written decide where they are.  Likewise a key in front of a colon has a
token of its own before its first token.
-/

namespace PageAssembly.Yaml

/-- The kinds of collections. -/
inductive Collection where
  /-- Items in order. -/
  | sequence
  /-- Values under keys. -/
  | mapping
  deriving DecidableEq, Repr

/-- What stands in front of a document. -/
inductive Directive where
  /-- The version of YAML that the document is written in. -/
  | version (major : Nat)
  /-- A handle and the start of the tags that it stands for. -/
  | handle (handle start : Text)
  /-- A directive without a meaning. -/
  | other
  deriving DecidableEq, Repr

/-- The parts of a document. -/
inductive Token where
  /-- A line that starts with a per cent sign. -/
  | directive (directive : Directive)
  /-- Three hyphens. -/
  | documentStart
  /-- Three full stops. -/
  | documentEnd
  /-- The start of a collection that its column marks. -/
  | blockStart (kind : Collection)
  /-- The end of a collection that its column marks. -/
  | blockEnd
  /-- An opening bracket. -/
  | flowStart (kind : Collection)
  /-- A closing bracket. -/
  | flowEnd (kind : Collection)
  /-- A comma. -/
  | flowEntry
  /-- A hyphen. -/
  | blockEntry
  /-- A question mark, or the start of a key. -/
  | key
  /-- A colon. -/
  | value
  /-- A node that is named elsewhere. -/
  | alias (name : Text)
  /-- A name for the node that follows. -/
  | anchor (name : Text)
  /-- A tag for the node that follows; without a handle it is complete. -/
  | tag (handle : Option Text) (suffix : Text)
  /-- A scalar, plain or in quotes or as a block. -/
  | scalar (plain : Bool) (text : Text)
  deriving DecidableEq, Repr

end PageAssembly.Yaml
