/-!
# The limit on the digits of numbers

A number in decimal digits is read only when it does not have too many of them.

## Main definitions

* `Text.digitLimit` — the most digits
* `Text.digitLimitMessage` — what is said about a number with more
-/

namespace PageAssembly.Text

/-- The most decimal digits that a number may be written with. -/
def digitLimit : Nat := 4300

/-- What is said about a number that is written with too many digits. -/
def digitLimitMessage (digits : Nat) : String :=
  s!"Exceeds the limit ({digitLimit} digits) for integer string conversion: value has {digits} " ++
    "digits; use sys.set_int_max_str_digits() to increase the limit"

end PageAssembly.Text
