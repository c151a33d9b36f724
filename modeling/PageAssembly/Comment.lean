import PageAssembly.Text.Search

/-!
# Comments of the root document

Comments are taken out of the root document before its references are replaced.

## Main definitions

* `Comment.strip` — the text without its comments

## Design notes

A comment runs from `<!--` to the first `-->` that starts after those four characters, across line
ends.  The search goes on behind the comment, so comments do not nest; an opening without a close
stays, with all that follows it.
-/

namespace PageAssembly.Comment

/-- The start of a comment. -/
def opening : Text := ['<', '!', '-', '-']

/-- The end of a comment. -/
def closing : Text := ['-', '-', '>']

/-- The text before the first comment and the text behind it.  When nothing closes the first
opening, nothing closes a later one either. -/
def split? (s : Text) : Option (Text × Text) :=
  (Text.cut? opening s).bind fun (before, body) =>
    (Text.cut? closing body).map fun (_, rest) => (before, rest)

theorem split?_eq_some {s before rest : Text} (h : split? s = some (before, rest)) :
    ∃ body, s = before ++ opening ++ body ++ closing ++ rest := by
  simp only [split?, Option.bind_eq_some_iff, Option.map_eq_some_iff, Prod.exists] at h
  obtain ⟨b, tail, hb, body, r, hc, he⟩ := h
  simp only [Prod.mk.injEq] at he
  obtain ⟨rfl, rfl⟩ := he
  exact ⟨body, by rw [Text.cut?_eq_some hb, Text.cut?_eq_some hc]; simp⟩

theorem length_lt_of_split? {s before rest : Text} (h : split? s = some (before, rest)) :
    rest.length < s.length := by
  obtain ⟨body, rfl⟩ := split?_eq_some h
  simp [opening]
  omega

/-- The work behind `strip`; `kept` holds the texts between comments in reverse. -/
def stripFrom (kept : List Text) (s : Text) : Text :=
  match _h : split? s with
  | none => (s :: kept).reverse.flatten
  | some (before, rest) => stripFrom (before :: kept) rest
termination_by s.length
decreasing_by exact length_lt_of_split? _h

/-- The text without its comments. -/
def strip (s : Text) : Text := stripFrom [] s

end PageAssembly.Comment
