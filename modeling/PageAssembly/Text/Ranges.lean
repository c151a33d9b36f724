/-!
# Sets of characters given by ranges

Properties of the Unicode standard are kept as ascending lists of code-point ranges.

## Main definitions

* `Ranges` — a list of closed ranges of code points
* `Ranges.holds` — whether a character lies in one of them
-/

namespace PageAssembly.Text

/-- Closed ranges of code points, in ascending order. -/
abbrev Ranges := List (Nat × Nat)

/-- Whether the character lies in one of the ranges. -/
def Ranges.holds (ranges : Ranges) (c : Char) : Bool :=
  ranges.any fun (first, last) => first ≤ c.toNat && c.toNat ≤ last

theorem Ranges.holds_iff {ranges : Ranges} {c : Char} :
    ranges.holds c = true ↔ ∃ r ∈ ranges, r.1 ≤ c.toNat ∧ c.toNat ≤ r.2 := by
  simp [Ranges.holds]

end PageAssembly.Text
