import PageAssembly.Text.Blank

/-!
# Open tags

The tags that are open at a point of a document, the innermost first.

## Main definitions

* `Markup.OpenTags` — the tags
* `OpenTags.push`, `OpenTags.pop`, `OpenTags.peek?`, `OpenTags.depth` — last in, first out
-/

namespace PageAssembly.Markup

/-- The names of the open tags. -/
structure OpenTags where
  /-- The names, innermost first. -/
  toList : List Text := []
  deriving DecidableEq, Repr

namespace OpenTags

/-- No tag is open. -/
def empty : OpenTags := ⟨[]⟩

/-- Opens a tag inside all others. -/
def push (tag : Text) (tags : OpenTags) : OpenTags := ⟨tag :: tags.toList⟩

/-- The innermost open tag. -/
def peek? (tags : OpenTags) : Option Text := tags.toList.head?

/-- Closes the innermost open tag, if there is one. -/
def pop (tags : OpenTags) : OpenTags := ⟨tags.toList.tail⟩

/-- The number of open tags. -/
def depth (tags : OpenTags) : Nat := tags.toList.length

@[simp] theorem toList_empty : empty.toList = [] := rfl

@[simp] theorem toList_push (tag : Text) (tags : OpenTags) :
    (tags.push tag).toList = tag :: tags.toList := rfl

@[simp] theorem toList_pop (tags : OpenTags) : tags.pop.toList = tags.toList.tail := rfl

@[simp] theorem pop_push (tag : Text) (tags : OpenTags) : (tags.push tag).pop = tags := rfl

@[simp] theorem peek?_push (tag : Text) (tags : OpenTags) : (tags.push tag).peek? = some tag := rfl

@[simp] theorem depth_empty : empty.depth = 0 := rfl

@[simp] theorem depth_push (tag : Text) (tags : OpenTags) :
    (tags.push tag).depth = tags.depth + 1 := rfl

theorem depth_pop (tags : OpenTags) : tags.pop.depth = tags.depth - 1 := by
  simp [depth]

theorem peek?_eq_none_iff (tags : OpenTags) : tags.peek? = none ↔ tags.depth = 0 := by
  simp [peek?, depth]

end OpenTags

end PageAssembly.Markup
