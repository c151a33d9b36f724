import PageAssembly.Text.Blank

/-!
# Dependencies between components

A dependency map lists components together with the names that each of them refers to.  A name that
is referred to but is no component has no dependencies of its own.

## Main definitions

* `Dependencies` — components in the order of discovery and their references
* `Dependencies.direct` — the names a component refers to
* `Dependencies.closure` — the names reachable from a name by one or more references
* `Dependencies.cyclic` — the components that reach themselves

## Design notes

The closure is a worklist over the names that occur as references.  A name is expanded when it is
taken off the list of names not met yet, so the pair of that list's length and the worklist's length
goes down lexicographically and the search ends on cyclic maps as well.
-/

namespace PageAssembly

/-- Components and the names that each refers to. -/
structure Dependencies where
  /-- Each component with its references. -/
  entries : List (Text × List Text) := []
  deriving DecidableEq, Repr

namespace Dependencies

/-- The names of the components, in the order of discovery. -/
def components (d : Dependencies) : List Text := d.entries.map Prod.fst

/-- The names that a component refers to; none when the name is no component. -/
def direct (d : Dependencies) (name : Text) : List Text := (d.entries.lookup name).getD []

/-- Every name that some component refers to, once. -/
def mentioned (d : Dependencies) : List Text := (d.entries.flatMap Prod.snd).eraseDups

/-- The work behind `closure`: `unmet` holds the names not reached yet, `pending` the names still to
be looked at, `reached` the names found. -/
def closureFrom (d : Dependencies) (unmet pending reached : List Text) : List Text :=
  match pending with
  | [] => reached
  | name :: pending =>
    if name ∈ unmet then
      closureFrom d (unmet.erase name) (d.direct name ++ pending) (name :: reached)
    else closureFrom d unmet pending reached
termination_by (unmet.length, pending.length)
decreasing_by
  · rename_i h
    have h1 := List.length_erase_of_mem h
    have h2 := List.length_pos_of_mem h
    exact Prod.Lex.left _ _ (by omega)
  · exact Prod.Lex.right _ (by simp)

/-- The names reachable from a name by one or more references. -/
def closure (d : Dependencies) (name : Text) : List Text :=
  closureFrom d d.mentioned (d.direct name) []

/-- The components that reach themselves, in ascending order. -/
def cyclic (d : Dependencies) : List Text :=
  Text.sort (d.components.filter fun name => name ∈ d.closure name)

end Dependencies

end PageAssembly
