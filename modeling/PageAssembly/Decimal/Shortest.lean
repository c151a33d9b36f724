import PageAssembly.Decimal.Binary64
import PageAssembly.Text.Blank

/-!
# The shortest decimals of floating-point numbers

A floating-point number is written with the fewest decimal digits that read back as the number, and
among those with the ones nearest to it.

## Main definitions

* `Binary64.Reach` — the decimals that read back as a number
* `Binary64.shortest` — the shortest of them
* `Binary64.text` — the text of a number

## Design notes

The decimals that read back as a number lie between the middles to its neighbours.  The middles
themselves are rounded to it when its mantissa is even.  For each count of digits only the two
decimals around the number itself have to be tried, because if any decimal of that count lies
between the middles then one of these two does.  Seventeen digits always suffice.

The text is positional as long as the point is not far from the digits, and has an exponent
otherwise.
-/

namespace PageAssembly.Binary64

/-- The number of decimal digits. -/
def digitCount (n : Nat) : Nat := (Nat.toDigits 10 n).length

/-- A positive number and the middles to its neighbours, as multiples of a quarter of the last bit
of its mantissa. -/
structure Reach where
  /-- The lower middle. -/
  low : Nat
  /-- The number. -/
  value : Nat
  /-- The upper middle. -/
  high : Nat
  /-- The exponent of the common factor. -/
  exponent : Int
  /-- Whether the middles are rounded to the number. -/
  hasEnds : Bool
  deriving Repr

/-- The reach of a positive number.  Below a power of two the neighbours are closer. -/
def reach (mantissa : Nat) (exponent : Int) : Reach where
  low :=
    if mantissa = Nat.pow 2 (precision - 1) ∧ leastExponent < exponent then 4 * mantissa - 1
    else 4 * mantissa - 2
  value := 4 * mantissa
  high := 4 * mantissa + 2
  exponent := exponent - 2
  hasEnds := mantissa % 2 == 0

/-- A decimal number: digits times ten to a power. -/
structure Decimal where
  /-- The digits as a number. -/
  digits : Nat
  /-- The power of ten. -/
  power : Int
  deriving DecidableEq, Repr

namespace Reach

/-- A multiple of the reach's unit and a multiple of a power of ten on a common scale. -/
def common (r : Reach) (power : Int) (units digits : Nat) : Nat × Nat :=
  (units * Nat.pow 2 r.exponent.toNat * Nat.pow 10 (-power).toNat,
    digits * Nat.pow 10 power.toNat * Nat.pow 2 (-r.exponent).toNat)

/-- Whether a decimal reads back as the number. -/
def holds (r : Reach) (d : Decimal) : Bool :=
  let (low, x) := r.common d.power r.low d.digits
  let (high, _) := r.common d.power r.high d.digits
  if r.hasEnds then low ≤ x && x ≤ high else low < x && x < high

/-- How far a decimal is from the number, on the scale of its power. -/
def distance (r : Reach) (d : Decimal) : Nat :=
  let (value, x) := r.common d.power r.value d.digits
  (x - value) + (value - x)

/-- The number of digits in front of the point; for a number below one tenth, less than zero by the
number of zeros behind the point. -/
def order (r : Reach) : Int :=
  let n := r.value * Nat.pow 2 r.exponent.toNat
  let d := Nat.pow 2 (-r.exponent).toNat
  if d ≤ n then digitCount (n / d) else 1 - (digitCount ((d - 1) / n) : Int)

/-- The decimal below the number with the given power. -/
def below (r : Reach) (power : Int) : Decimal where
  digits := (r.common power r.value 1).1 / (r.common power r.value 1).2
  power := power

/-- The decimal with the given count of digits that reads back as the number and is nearest to
it. -/
def ofCount? (r : Reach) (count : Nat) : Option Decimal :=
  let down := r.below (r.order - count)
  let up : Decimal := { down with digits := down.digits + 1 }
  match r.holds down, r.holds up with
  | true, true =>
    if r.distance down < r.distance up ∨
        (r.distance down = r.distance up ∧ down.digits % 2 = 0) then some down
    else some up
  | true, false => some down
  | false, true => some up
  | false, false => none

end Reach

/-- The greatest count of digits that is needed. -/
def enoughDigits : Nat := 17

/-- The shortest decimal that reads back as a positive number. -/
def shortest (mantissa : Nat) (exponent : Int) : Decimal :=
  let r := reach mantissa exponent
  ((List.range enoughDigits).findSome? fun n => r.ofCount? (n + 1)).getD
    (r.below (r.order - enoughDigits))

/-- The digits without the zeros at their end, and the number of digits in front of the point. -/
def Decimal.spelling (d : Decimal) : Text × Int :=
  let digits := Nat.toDigits 10 d.digits
  ((digits.reverse.dropWhile (· == '0')).reverse, digits.length + d.power)

/-- A number of zeros. -/
def zeros (n : Int) : Text := List.replicate n.toNat '0'

/-- Digits with the point at its place. -/
def positional (digits : Text) (point : Int) : Text :=
  if point ≤ 0 then ['0', '.'] ++ zeros (-point) ++ digits
  else if (digits.length : Int) ≤ point then digits ++ zeros (point - digits.length) ++ ['.', '0']
  else digits.take point.toNat ++ ['.'] ++ digits.drop point.toNat

/-- Digits with the point behind the first one, and an exponent of two digits at least. -/
def exponential (digits : Text) (point : Int) : Text :=
  let exponent := point - 1
  let size := Nat.toDigits 10 exponent.natAbs
  let size := if size.length < 2 then '0' :: size else size
  let rest := digits.drop 1
  digits.take 1 ++ (if rest.isEmpty then [] else '.' :: rest) ++ ['e'] ++
    [if exponent < 0 then '-' else '+'] ++ size

/-- The text of a positive number: positional when the point stands among the first sixteen digits
or behind at most three zeros in front of them. -/
def magnitude (mantissa : Nat) (exponent : Int) : Text :=
  let (digits, point) := (shortest mantissa exponent).spelling
  if -4 < point ∧ point ≤ 16 then positional digits point else exponential digits point

/-- The text of a number. -/
def text : Binary64 → Text
  | .nan => "nan".toList
  | .infinite negative => (if negative then ['-'] else []) ++ "inf".toList
  | .finite negative mantissa exponent =>
    (if negative then ['-'] else []) ++
      if mantissa = 0 then "0.0".toList else magnitude mantissa exponent

end PageAssembly.Binary64
