import PageAssembly.FileTree.Basic

/-!
# Differences between file trees

## Main definitions

* `FileTree.removed` — the locations of a tree at which another one has nothing
* `FileTree.changed` — the entries of a tree that another one does not have, directories before
  what stands in them
-/

namespace PageAssembly.FileTree

/-- The locations at which `before` has an entry and `after` has none. -/
def removed (before after : FileTree) : List Location :=
  (before.entries.map Prod.fst).filter fun l => (after.lookup l).isNone

/-- The entries of `after` that `before` does not have, directories before what stands in them. -/
def changed (before after : FileTree) : List (Location × Entry) :=
  (after.entries.filter fun (l, e) => before.lookup l != some e).mergeSort fun a b =>
    a.1.length ≤ b.1.length

end PageAssembly.FileTree
