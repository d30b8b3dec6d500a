import Spreadsheet.Binary64.Basic

/-!
# Reading decimals

The number nearest to a decimal `digits · 10^exponent`. Exponents may be of any size: far outside
the format's range the answer is known without the power of ten (`ofDecimal`).
-/

namespace Spreadsheet.Binary64

/-- The number nearest to a decimal, computed with the power of ten. -/
def ofDecimalExact (negative : Bool) (digits : Nat) : Int → Binary64
  | .ofNat e => ofRatio negative (digits * Decimal.powerOfTen e) 1
  | .negSucc e => ofRatio negative digits (Decimal.powerOfTen (e + 1))

/-- The number nearest to a decimal. The format ends below 10^309, and half its least positive
number is above 10^-324. -/
def ofDecimal (negative : Bool) (digits : Nat) (exponent : Int) : Binary64 :=
  let top := exponent + Decimal.digitCount digits
  if digits = 0 ∨ top < -330 then zero negative
  else if 330 < top then inf negative
  else ofDecimalExact negative digits exponent

end Spreadsheet.Binary64
