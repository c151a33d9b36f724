import PageAssembly.Survey

/-!
# Expansion of references

A reference is replaced by the markup of its component, in which the references are replaced in
turn.  What a component expands to is remembered, so each one is read once.

## Main definitions

* `Memo` — the markup of the components expanded so far
* `Expanding` — an operation that remembers markup, reports notices and may fail
* `Expansion.component` — the markup of a component
* `Expansion.line`, `Expansion.document` — a line and a document with their references replaced

## Design notes

The components whose expansion has begun and not ended are an argument, innermost last.  Reaching
one of them again is a circular dependency, made of all names from that one on.

A name that leads to no fragment is replaced by nothing and is not remembered, so each of its
references is reported.  A fragment is read line by line: when its last character is cut off, the
finished lines are expanded before the fault ends the expansion.

Nested expansions are counted down from a budget.  A component is expanded inside another one only
when a file mentions it, and no file mentions more names than it has bytes, so the budget of
`FileTree.size` is not used up before a name repeats.
-/

namespace PageAssembly

/-- The markup of the components expanded so far. -/
structure Memo where
  /-- Each component once, with its markup. -/
  entries : List (Text × Text) := []
  deriving DecidableEq, Repr

namespace Memo

/-- The markup of a component. -/
def get? (m : Memo) (component : Text) : Option Text := m.entries.lookup component

/-- Remembers the markup of a component. -/
def store (m : Memo) (component markup : Text) : Memo :=
  ⟨Association.insert component markup m.entries⟩

/-- The number of components remembered. -/
def size (m : Memo) : Nat := m.entries.length

theorem get?_store (m : Memo) (component markup name : Text) :
    (m.store component markup).get? name =
      if name = component then some markup else m.get? name :=
  Association.lookup_insert component name markup m.entries

/-- What holds of everything remembered, and of what is new, holds of everything afterwards. -/
theorem forall_get?_store {P : Text → Text → Prop} {m : Memo}
    (old : ∀ name markup, m.get? name = some markup → P name markup) {component markup : Text}
    (new : P component markup) :
    ∀ name found, (m.store component markup).get? name = some found → P name found := by
  intro name found h
  rw [get?_store] at h
  split at h
  · next same =>
      obtain rfl := Option.some.inj h
      exact same ▸ new
  · exact old name found h

end Memo

/-- Where a reference stands. -/
structure Place where
  /-- What the document is called in notices. -/
  source : Text := "<document>".toList
  /-- The number of the line, counted from one. -/
  line : Int := 0
  deriving DecidableEq, Repr

/-- What an expansion keeps between its steps. -/
structure Expanding.State where
  /-- The components expanded so far. -/
  memo : Memo := {}
  /-- The notices reported so far. -/
  notices : Notices := #[]

/-- An operation that remembers markup and reports notices; both outlast a failure. -/
abbrev Expanding := ExceptT Failure (StateM Expanding.State)

namespace Expanding

/-- Reports a notice. -/
def note (n : Notice) : Expanding Unit :=
  modify fun s => { s with notices := s.notices.push n }

/-- The markup remembered for a component. -/
def remembered (component : Text) : Expanding (Option Text) := do
  return (← get).memo.get? component

/-- Remembers the markup of a component. -/
def remember (component markup : Text) : Expanding Unit :=
  modify fun s => { s with memo := s.memo.store component markup }

end Expanding

namespace Expansion

/-- One piece of a line, with `expand` for its references. -/
def pieceWith (expand : Text → Expanding Text) (place : Place) :
    Reference.Piece → Expanding Text
  | .literal text => pure text
  | .reference name => expand name
  | .untaken name => do
    Expanding.note (.notSelfClosing name place.line place.source)
    return []

/-- A line, with `expand` for its references. -/
def lineWith (expand : Place → Text → Expanding Text) (place : Place) (line : Text) :
    Expanding Text := do
  let parts ← (Reference.pieces line).mapM (pieceWith (expand place) place)
  return parts.flatten

/-- Numbered lines of a source, with `expand` for their references. -/
def linesWith (expand : Place → Text → Expanding Text) (source : Text) (lines : List Text) :
    Expanding Text := do
  let parts ← (lines.zipIdx 1).mapM fun (line, number) =>
    lineWith expand ⟨source, (number : Nat)⟩ line
  return parts.flatten

/-- The markup of a component inside the expansions in progress, which are listed outermost
first. -/
def componentWithin (t : FileTree) (directory : Path) :
    (budget : Nat) → (inProgress : List Text) → Place → Text → Expanding Text
  | 0, inProgress, _, _ => throw (.circular (Text.sortUnique inProgress))
  | budget + 1, inProgress, place, name => do
    match ← Expanding.remembered name with
    | some markup =>
      Expanding.note (.remembered name)
      return markup
    | none =>
      if name ∈ inProgress then
        throw (.circular (Text.sortUnique (inProgress.dropWhile fun n => !(n == name))))
      match t.read (Fragment.path directory name) with
      | .error failure =>
        if failure.isSystem then
          Expanding.note (.missingFragment name place.line place.source directory)
          return []
        else throw (.files failure)
      | .ok bytes =>
        let stored := Stored.lines bytes
        let markup ← linesWith (componentWithin t directory budget (inProgress ++ [name]))
          (Fragment.path directory name).name stored.delivered
        match stored.fault with
        | some fault => throw (.encoding fault)
        | none =>
          Expanding.remember name markup
          return markup

/-- The number of nested expansions after which a name has repeated. -/
def budget (t : FileTree) : Nat := t.size + 2

/-- The markup of a component. -/
def component (t : FileTree) (directory : Path) (place : Place) (name : Text) : Expanding Text :=
  componentWithin t directory (budget t) [] place name

/-- A line with its references replaced. -/
def line (t : FileTree) (directory : Path) (place : Place) (text : Text) : Expanding Text :=
  lineWith (component t directory) place text

/-- A document with its references replaced, line ends kept. -/
def document (t : FileTree) (directory : Path) (source : Text) (text : Text) : Expanding Text :=
  linesWith (component t directory) source (Text.splitLines text)

end Expansion

end PageAssembly
