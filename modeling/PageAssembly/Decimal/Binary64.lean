/-!
# Floating-point numbers of 64 bits

## Main definitions

* `Binary64` — not a number, the infinities, and signed multiples of powers of two
* `Binary64.ofRatio`, `Binary64.ofDecimal` — the number nearest to a fraction or a decimal
* `Binary64.toInt?` — the integer that a number is equal to

## Design notes

A finite number is kept as a mantissa and an exponent.  The numbers that rounding gives have a
mantissa below `2 ^ 53` and an exponent from `-1074` on, and a mantissa below `2 ^ 52` only at the
least exponent, so equal numbers have equal parts but for the sign of zero.  All arithmetic is exact
until the one rounding, which goes to the nearest number and to the even mantissa in the middle.
-/

namespace PageAssembly

/-- A floating-point number of 64 bits. -/
inductive Binary64 where
  /-- The result of an operation without a value. -/
  | nan
  /-- Beyond all finite numbers. -/
  | infinite (negative : Bool)
  /-- The mantissa times two to the exponent, with a sign that zero has too. -/
  | finite (negative : Bool) (mantissa : Nat) (exponent : Int)
  deriving DecidableEq, Repr

namespace Binary64

/-- The number of bits of a mantissa. -/
def precision : Nat := 53

/-- The least exponent. -/
def leastExponent : Int := -1074

/-- The greatest exponent. -/
def greatestExponent : Int := 971

/-- A fraction divided by two to the exponent. -/
def scaled (numerator denominator : Nat) (exponent : Int) : Nat × Nat :=
  (numerator * Nat.pow 2 (-exponent).toNat, denominator * Nat.pow 2 exponent.toNat)

/-- The integer nearest to a fraction, the even one in the middle. -/
def roundHalfEven (numerator denominator : Nat) : Nat :=
  let quotient := numerator / denominator
  let twice := 2 * (numerator % denominator)
  if twice < denominator ∨ (twice = denominator ∧ quotient % 2 = 0) then quotient else quotient + 1

/-- The exponent with which a positive fraction has a mantissa of full length, if there is room for
it, otherwise the least one. -/
def exponentOf (numerator denominator : Nat) : Int :=
  let low : Int := (numerator.log2 : Int) - denominator.log2 - precision
  let (n, d) := scaled numerator denominator low
  max leastExponent (if Nat.pow 2 precision * d ≤ n then low + 1 else low)

/-- The number nearest to a fraction with a sign. -/
def ofRatio (negative : Bool) (numerator denominator : Nat) : Binary64 :=
  if numerator = 0 then .finite negative 0 leastExponent
  else
    let exponent := exponentOf numerator denominator
    let (n, d) := scaled numerator denominator exponent
    let mantissa := roundHalfEven n d
    let (mantissa, exponent) :=
      if mantissa = Nat.pow 2 precision then (Nat.pow 2 (precision - 1), exponent + 1)
      else (mantissa, exponent)
    if greatestExponent < exponent then .infinite negative
    else .finite negative mantissa exponent

/-- The decimal orders beyond which a number is infinite or zero whatever its digits are. -/
def orderLimit : Int := 400

/-- The number nearest to `digits` times ten to `power`, where `digits` has `count` decimal digits at
most. -/
def ofDecimal (negative : Bool) (digits count : Nat) (power : Int) : Binary64 :=
  if digits = 0 ∨ power + count < -orderLimit then .finite negative 0 leastExponent
  else if orderLimit + count < power then .infinite negative
  else ofRatio negative (digits * Nat.pow 10 power.toNat) (Nat.pow 10 (-power).toNat)

/-- The integer that a number is equal to, if it is one. -/
def toInt? : Binary64 → Option Int
  | .finite negative mantissa exponent =>
    let (n, d) := (mantissa * Nat.pow 2 exponent.toNat, Nat.pow 2 (-exponent).toNat)
    if n % d = 0 then some (if negative then -(n / d : Nat) else (n / d : Nat)) else none
  | _ => none

/-- Whether two numbers are equal: zeros are, whatever their signs, and what is not a number is
equal to nothing. -/
def equal : Binary64 → Binary64 → Bool
  | .nan, _ => false
  | .finite _ 0 _, .finite _ 0 _ => true
  | a, b => a == b

/-- Whether a number is zero. -/
def isZero : Binary64 → Bool
  | .finite _ 0 _ => true
  | _ => false

theorem roundHalfEven_one (n : Nat) : roundHalfEven n 1 = n := by
  simp [roundHalfEven, Nat.mod_one]

/-- Rounding is off by half a unit at most. -/
theorem roundHalfEven_near (n : Nat) {d : Nat} (hd : 0 < d) :
    2 * n ≤ (2 * roundHalfEven n d + 1) * d ∧ 2 * roundHalfEven n d * d ≤ 2 * n + d := by
  have hn := Nat.div_add_mod n d
  have hlt := Nat.mod_lt n hd
  generalize hq : n / d = q at hn
  generalize hr : n % d = r at hn hlt
  have hnq : n = q * d + r := by rw [← hn, Nat.mul_comm]
  unfold roundHalfEven
  simp only [hq, hr]
  split
  · next h =>
    constructor
    · rw [hnq, Nat.add_mul, Nat.mul_add, Nat.mul_assoc]; omega
    · rw [hnq, Nat.mul_add, Nat.mul_assoc]; omega
  · next h =>
    constructor
    · rw [hnq, Nat.add_mul, Nat.mul_add, Nat.mul_add, Nat.add_mul, Nat.mul_assoc]; omega
    · rw [hnq, Nat.mul_add, Nat.mul_add, Nat.add_mul, Nat.mul_assoc]; omega

end Binary64

end PageAssembly
