import Conformance.Text.DecimalDigit

/-!
# Reading decimals

A decimal beyond the range of floating-point numbers is infinite or zero, however large its exponent is.
-/

namespace Conformance.Decimal

/-- The power of ten from which on every number but zero is infinite. -/
def largestPower : Int := 400

/-- The number that decimal digits and a power of ten write, rounded to the nearest. -/
def ofDigits (digits : List Char) (power : Int) : Float :=
  let e := max (-largestPower - digits.length) (min power largestPower)
  Float.ofScientific (Text.decimalValue digits) (e < 0) e.natAbs

end Conformance.Decimal
