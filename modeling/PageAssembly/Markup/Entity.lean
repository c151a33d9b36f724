import PageAssembly.Text.Run
import PageAssembly.Text.Search

/-!
# Character and entity references

## Main definitions

* `Markup.readCharacterReference?` — a numeric reference behind `&#`
* `Markup.readEntity?` — a named reference behind `&`
* `Markup.oversizedReference?` — a decimal reference with too many digits

## Design notes

A reference is recognised only when a character behind it shows where it ends.  A semicolon there
belongs to the reference; anything else is left.  A numeric reference is not recognised in front of
a hexadecimal digit.  At the end of the text a name may still be ended by its own last hyphen or
full stop.
-/

namespace PageAssembly.Markup

/-- The text without a semicolon at its start. -/
def dropSemicolon : Text → Text
  | ';' :: s => s
  | s => s

theorem length_dropSemicolon_le (s : Text) : (dropSemicolon s).length ≤ s.length := by
  unfold dropSemicolon
  split <;> simp

/-- The number in a numeric reference: decimal digits, or an `x` and hexadecimal digits. -/
def readNumber? (s : Text) : Option (Text × Text) :=
  let digits := Text.run Text.isDigit s
  if !digits.1.isEmpty then some digits
  else
    match s with
    | [] => none
    | x :: s =>
      let hex := Text.run Text.isHexDigit s
      if (x == 'x' || x == 'X') && !hex.1.isEmpty then some (x :: hex.1, hex.2) else none

theorem readNumber?_written {s number rest : Text} (h : readNumber? s = some (number, rest)) :
    number ++ rest = s := by
  unfold readNumber? at h
  simp only at h
  split at h
  · simp only [Option.some.injEq] at h
    rw [← Text.run_written Text.isDigit s, h]
  · split at h
    · simp at h
    · next x s =>
      split at h
      · simp only [Option.some.injEq, Prod.mk.injEq] at h
        obtain ⟨rfl, rfl⟩ := h
        simp [Text.run_written]
      · simp at h

/-- The number of the reference whose `&#` stands before the text, and the rest. -/
def readCharacterReference? (s : Text) : Option (Text × Text) :=
  match readNumber? s with
  | some (number, c :: rest) =>
    if Text.isHexDigit c then none else some (number, dropSemicolon (c :: rest))
  | _ => none

/-- The characters of an entity's name behind the first one. -/
def isEntityName (c : Char) : Bool :=
  c == '-' || c == '.' || Text.isLetter c || Text.isDigit c

/-- The characters that can end a name at the end of the text. -/
def endsEntity (c : Char) : Bool := c == '-' || c == '.'

/-- The name of the reference whose `&` stands before the text, and the rest; the text starts with
a letter. -/
def readEntity? (s : Text) : Option (Text × Text) :=
  let name := Text.run isEntityName s
  if !name.2.isEmpty then some (name.1, dropSemicolon name.2)
  else
    let tail := Text.run (fun c => !endsEntity c) name.1.reverse
    match tail.2 with
    | [] => none
    | mark :: before => some (before.reverse, mark :: tail.1.reverse)

/-- The number of digits of the decimal reference at the start of the text, when it is above the
limit. -/
def oversizedAt? (limit : Nat) (s : Text) : Option Nat :=
  (Text.after? ['&', '#'] s).bind fun body =>
    let digits := (Text.run Text.isDigit body).1.length
    if limit < digits then some digits else none

/-- The number of digits of the first decimal reference with more digits than the limit. -/
def oversizedReference? (limit : Nat) (s : Text) : Option Nat :=
  (Text.search (oversizedAt? limit) s).map Prod.snd

end PageAssembly.Markup
