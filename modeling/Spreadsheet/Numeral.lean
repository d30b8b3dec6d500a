import Spreadsheet.Decimal.Rounding
import Spreadsheet.Fault
import Spreadsheet.Text.DecimalDigit

/-!
# Decimal numerals of integers

Integers are read from decimal numerals and written as such, up to `numeralLimit` digits.
-/

namespace Spreadsheet.Numeral

/-- The number that a row of decimal digits writes; leading zeros count as digits. -/
def read (digits : List Char) : Except Fault Nat :=
  if digits.length ≤ numeralLimit then .ok (Text.digitsValue digits)
  else .error (.numeralTooLong digits.length)

/-- The numeral of an integer. -/
def write (n : Int) : Except Fault String :=
  if n.natAbs < Decimal.powerOfTen numeralLimit then .ok (toString n) else .error .integerTooLong

end Spreadsheet.Numeral
