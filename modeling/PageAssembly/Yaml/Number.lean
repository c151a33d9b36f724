import PageAssembly.Decimal.Binary64
import PageAssembly.Text.DigitLimit
import PageAssembly.Text.Run
import PageAssembly.Text.Search
import PageAssembly.Yaml.Fault

/-!
# Numbers in YAML

## Main definitions

* `Yaml.isInteger`, `Yaml.integer` — which plain scalars are integers, and their values
* `Yaml.isReal`, `Yaml.real` — which plain scalars are real numbers, and their values

## Design notes

Whether a plain scalar is a number is decided by its shape; its value is found afterwards.  The two
nearly agree: what is left of a shape with underscores only, such as `+_`, has no value.

Both readings leave underscores out.  Digits are decimal unless a mark stands in front of them.
-/

namespace PageAssembly.Yaml

/-- Digits and underscores. -/
def isGroupedDigit (c : Char) : Bool := Text.isDigit c || c == '_'

/-- The text without the sign at its start. -/
def unsigned : Text → Text
  | '+' :: s => s
  | '-' :: s => s
  | s => s

/-- Whether a text starts with a minus sign. -/
def isNegative (s : Text) : Bool := s.head? == some '-'

/-- The text without underscores. -/
def ungrouped (s : Text) : Text := s.filter (· != '_')

/-! ## Shapes -/

/-- Whether the text is a mark and some characters of a class. -/
def isMarked (mark : String) (p : Char → Bool) (s : Text) : Bool :=
  match Text.after? mark.toList s with
  | some digits => !digits.isEmpty && digits.all p
  | none => false

/-- Whether a plain scalar is an integer. -/
def isInteger (s : Text) : Bool :=
  let u := unsigned s
  isMarked "0b" (fun c => c == '0' || c == '1' || c == '_') u ||
    isMarked "0o" (fun c => ('0' ≤ c && c ≤ '7') || c == '_') u ||
    isMarked "0x" (fun c => Text.isHexDigit c || c == '_') u ||
    (!u.isEmpty && u.all isGroupedDigit && s.head? != some '_')

/-- Whether the text is an exponent; its sign may be left out where that is said. -/
def isExponent (needsSign : Bool) : Text → Bool
  | c :: s =>
    let signed := s.head? == some '+' || s.head? == some '-'
    let digits := unsigned s
    (c == 'e' || c == 'E') && (signed || !needsSign) && !digits.isEmpty && digits.all Text.isDigit
  | [] => false

/-- Whether a text is one of the spellings of a word. -/
def isWord (spellings : List String) (s : Text) : Bool := spellings.any (·.toList == s)

/-- Whether a plain scalar is a real number. -/
def isReal (s : Text) : Bool :=
  isWord [".nan", ".NaN", ".NAN"] s ||
    match unsigned s with
    | '.' :: rest =>
      let (digits, tail) := Text.run isGroupedDigit rest
      isWord ["inf", "Inf", "INF"] rest ||
        (!digits.isEmpty && (tail.isEmpty || isExponent true tail))
    | c :: rest =>
      let tail := (Text.run isGroupedDigit rest).2
      Text.isDigit c &&
        match tail with
        | '.' :: rest =>
          let tail := (Text.run isGroupedDigit rest).2
          tail.isEmpty || isExponent false tail
        | _ => isExponent false tail
    | [] => false

/-! ## Values -/

/-- The value of a digit. -/
def digitValue (c : Char) : Nat := if Text.isDigit c then c.toNat - 48 else c.toLower.toNat - 87

/-- The number that digits spell in a base. -/
def digitsValue (base : Nat) (digits : Text) : Nat :=
  digits.foldl (fun n c => base * n + digitValue c) 0

/-- The number that digits spell in a base.  Decimal digits may not be too many. -/
def number (base : Nat) (digits : Text) : Except ScalarFault Nat :=
  let stripped := Text.trim digits
  if stripped.isEmpty ∨ !(stripped.all fun c => Text.isHexDigit c && digitValue c < base) then
    .error (.noInteger base digits)
  else if base = 10 ∧ Text.digitLimit < stripped.length then .error (.oversizedNumber stripped.length)
  else .ok (digitsValue base stripped)

/-- The value of a scalar that is to be an integer. -/
def integer (s : Text) : Except ScalarFault Int := do
  let s := ungrouped s
  let u := unsigned s
  let size ← match u with
    | '0' :: 'b' :: digits => number 2 digits
    | '0' :: 'x' :: digits => number 16 digits
    | '0' :: 'o' :: digits => number 8 digits
    | _ => number 10 u
  return if isNegative s then -(size : Int) else size

/-- The parts of a decimal number: the digits, how many of them stand behind the point, and the
exponent. -/
structure DecimalParts where
  /-- The digits. -/
  digits : Text
  /-- The number of digits behind the point. -/
  places : Nat
  /-- The exponent. -/
  exponent : Int

/-- The parts of an unsigned decimal number. -/
def decimalParts? (s : Text) : Option DecimalParts :=
  let (whole, rest) := Text.run Text.isDigit s
  let (part, tail) := match rest with
    | '.' :: rest => Text.run Text.isDigit rest
    | _ => ([], rest)
  let digits := whole ++ part
  if digits.isEmpty then none
  else if tail.isEmpty then some { digits, places := part.length, exponent := 0 }
  else if isExponent false tail then
    let size : Int := digitsValue 10 (unsigned tail.tail)
    some { digits, places := part.length
           exponent := if isNegative tail.tail then -size else size }
  else none

/-- The value of a scalar that is to be a real number. -/
def real (s : Text) : Except ScalarFault Binary64 :=
  let s := (ungrouped s).map Char.toLower
  let negative := isNegative s
  let u := unsigned s
  if isWord [".inf", "inf", "infinity"] u then .ok (.infinite negative)
  else if isWord [".nan", "nan"] u then .ok .nan
  else
    match decimalParts? (Text.trim u) with
    | some parts =>
      .ok (.ofDecimal negative (digitsValue 10 parts.digits) parts.digits.length
        (parts.exponent - parts.places))
    | none => .error (.noReal u)

end PageAssembly.Yaml
