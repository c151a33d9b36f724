import PageAssembly.Text.DigitLimit
import PageAssembly.Text.Quoted

/-!
# Markup that cannot be read

The markup reader tolerates nearly everything.  Three things stop it.

## Main definitions

* `Markup.Malformed` — what stops the reader
* `Malformed.message` — its wording
-/

namespace PageAssembly.Markup

/-- What stops the markup reader. -/
inductive Malformed where
  /-- A marked section without a name, shown by its first characters. -/
  | expectedName (opening : Text)
  /-- A marked section whose name is not known; the keyword includes the blanks behind it. -/
  | unknownSection (keyword : Text)
  /-- A decimal character reference in an attribute value with too many digits. -/
  | oversizedReference (digits : Nat)
  deriving DecidableEq, Repr

/-- The wording of what stops the reader. -/
def Malformed.message : Malformed → String
  | .expectedName opening => s!"expected name token at {opening.quoted.str}"
  | .unknownSection keyword => s!"unknown status keyword {keyword.quoted.str} in marked section"
  | .oversizedReference digits => Text.digitLimitMessage digits

end PageAssembly.Markup
