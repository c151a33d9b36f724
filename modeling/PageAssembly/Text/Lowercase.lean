import PageAssembly.Text.Blank
import PageAssembly.Text.CaseRanges

/-!
# Lowering the case of a text

## Main definitions

* `Text.lower` — the text in lower case, by the full mapping of the Unicode standard

## Design notes

Every character is lowered on its own, with two exceptions.  The capital `İ` becomes an `i` and a
combining dot.  The capital sigma becomes the final `ς` where it ends a word (a cased letter before
it, none behind it, ignorable characters passed over) and `σ` elsewhere.
-/

namespace PageAssembly.Text

/-- The lower-case letter of a character, for every character with a letter that does not depend on
its neighbours. -/
def lowerChar (c : Char) : Char :=
  if c.toNat < 128 then c.toLower
  else ((caseRuns.findSome? (·.lower? c.toNat)).map Char.ofNat).getD c

/-- Whether the first character that is not passed over is a cased one. -/
def meetsCased (s : Text) : Bool :=
  match s.dropWhile caseIgnorableRanges.holds with
  | [] => false
  | c :: _ => casedRanges.holds c

/-- The lower case of one character between `passed`, the text before it in reverse, and `rest`. -/
def lowerAt (passed : Text) (c : Char) (rest : Text) : Text :=
  if c = 'İ' then ['i', '\u0307']
  else if c = 'Σ' then [if meetsCased passed && !meetsCased rest then 'ς' else 'σ']
  else [lowerChar c]

/-- The work behind `lower`: the text passed and the text done, both in reverse. -/
def lowerFrom (passed done : Text) : Text → Text
  | [] => done.reverse
  | c :: rest => lowerFrom (c :: passed) ((lowerAt passed c rest).reverse ++ done) rest

/-- The text in lower case. -/
def lower (s : Text) : Text := lowerFrom [] [] s

theorem lowerFrom_eq (passed done s : Text) :
    lowerFrom passed done s = done.reverse ++ lowerFrom passed [] s := by
  induction s generalizing passed done with
  | nil => simp [lowerFrom]
  | cons c s ih =>
    rw [lowerFrom, lowerFrom, ih, ih (c :: passed) ((lowerAt passed c s).reverse ++ [])]
    simp

@[simp] theorem lower_nil : lower [] = [] := rfl

end PageAssembly.Text
