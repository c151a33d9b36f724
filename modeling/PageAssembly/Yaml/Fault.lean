import PageAssembly.Text.DigitLimit
import PageAssembly.Text.Quoted

/-!
# Faults of YAML documents

## Main definitions

* `Yaml.ScalarFault` — why a scalar that looks like a number or a date is none
* `Yaml.Fault` — why a text is no YAML document
* `ScalarFault.message` — the wording of the former

## Design notes

A fault of the document itself has no wording of its own: whoever reports it says only that there
is one.
-/

namespace PageAssembly.Yaml

/-- Why a scalar that stands for a number or a point in time is none. -/
inductive ScalarFault where
  /-- An integer with too many digits. -/
  | oversizedNumber (digits : Nat)
  /-- What is left of an integer without its sign and mark is no number. -/
  | noInteger (base : Nat) (written : Text)
  /-- What is left of a real number without its sign is no number. -/
  | noReal (written : Text)
  /-- A year that no date has. -/
  | year (number : Nat)
  /-- A month that no year has. -/
  | month
  /-- A day that its month does not have. -/
  | day
  /-- An hour that no day has. -/
  | hour
  /-- A minute that no hour has. -/
  | minute
  /-- A second that no minute has. -/
  | second
  deriving DecidableEq, Repr

/-- The wording of a fault of a scalar. -/
def ScalarFault.message : ScalarFault → String
  | .oversizedNumber digits => Text.digitLimitMessage digits
  | .noInteger base written =>
    s!"invalid literal for int() with base {base}: {written.quoted.str}"
  | .noReal written => s!"could not convert string to float: {written.quoted.str}"
  | .year number => s!"year {number} is out of range"
  | .month => "month must be in 1..12"
  | .day => "day is out of range for month"
  | .hour => "hour must be in 0..23"
  | .minute => "minute must be in 0..59"
  | .second => "second must be in 0..59"

/-- Why a text is no YAML document. -/
inductive Fault where
  /-- A character that no document may hold. -/
  | character
  /-- No token starts here. -/
  | token
  /-- A sequence entry where none may stand. -/
  | entryPlace
  /-- A mapping key where none may stand. -/
  | keyPlace
  /-- A mapping value where none may stand. -/
  | valuePlace
  /-- A key of a block mapping without a colon on its line. -/
  | keyWithoutValue
  /-- A closing bracket without an opening one. -/
  | bracket
  /-- A directive that cannot be read or that stands twice. -/
  | directive
  /-- An anchor or alias without a proper name. -/
  | anchorName
  /-- A tag that cannot be read. -/
  | tagName
  /-- An escape that is not known. -/
  | escape
  /-- A quoted scalar that a document marker or the end of the text interrupts. -/
  | unclosedQuote
  /-- The header or the indentation of a block scalar is wrong. -/
  | blockScalar
  /-- A token stands where the grammar has none of its kind. -/
  | arrangement
  /-- An alias to a name that no node has. -/
  | alias
  /-- A tag handle that no directive declares. -/
  | handle
  /-- A tag that does not suit its node or is not known. -/
  | tag
  /-- A key that stands twice in a mapping. -/
  | duplicateKey
  /-- A key that cannot be one. -/
  | keyValue
  /-- Something else than mappings is merged into a mapping. -/
  | merge
  /-- A scalar that is no value. -/
  | scalar (fault : ScalarFault)
  deriving DecidableEq, Repr

end PageAssembly.Yaml
