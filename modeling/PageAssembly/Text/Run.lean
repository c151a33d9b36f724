import PageAssembly.Text.Blank

/-!
# Runs of characters

The longest start of a text whose characters belong to a class, and what follows it.

## Main definitions

* `Text.run` — the run and the rest
* `Text.isLetter`, `Text.isDigit`, `Text.isHexDigit` — the ASCII classes that markup uses

## Main statements

* `Text.run_written` — nothing is lost
-/

namespace PageAssembly.Text

/-- The letters `a` to `z` and `A` to `Z`. -/
def isLetter (c : Char) : Bool := ('a' ≤ c && c ≤ 'z') || ('A' ≤ c && c ≤ 'Z')

/-- The digits `0` to `9`. -/
def isDigit (c : Char) : Bool := '0' ≤ c && c ≤ '9'

/-- The digits of base sixteen, in either case. -/
def isHexDigit (c : Char) : Bool := isDigit c || ('a' ≤ c && c ≤ 'f') || ('A' ≤ c && c ≤ 'F')

/-- The longest start of the text in the class, and the rest. -/
def run (p : Char → Bool) (s : Text) : Text × Text := (s.takeWhile p, s.dropWhile p)

theorem run_written (p : Char → Bool) (s : Text) : (run p s).1 ++ (run p s).2 = s :=
  List.takeWhile_append_dropWhile

end PageAssembly.Text
