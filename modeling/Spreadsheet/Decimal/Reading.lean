import Spreadsheet.Binary64.Decimal
import Spreadsheet.Text.DecimalDigit

/-!
# Decimal texts

A decimal text is a sign or none, ASCII digits with at most one point and at least one digit, and
an exponent or none.
-/

namespace Spreadsheet.Decimal

/-- Is the character an ASCII digit? -/
def isAsciiDigit (c : Char) : Bool :=
  48 ≤ c.toNat && c.toNat ≤ 57

/-- Takes a sign; tells whether it is a minus. -/
def takeSign : List Char → Bool × List Char
  | '-' :: rest => (true, rest)
  | '+' :: rest => (false, rest)
  | cs => (false, cs)

/-- Takes the digits before and after the point; fails if there is no digit. -/
def takeMantissa (cs : List Char) : Option (List Char × List Char × List Char) :=
  let whole := cs.takeWhile isAsciiDigit
  match cs.dropWhile isAsciiDigit with
  | '.' :: rest =>
    let fraction := rest.takeWhile isAsciiDigit
    if whole.isEmpty && fraction.isEmpty then none
    else some (whole, fraction, rest.dropWhile isAsciiDigit)
  | rest => if whole.isEmpty then none else some (whole, [], rest)

/-- The exponent that stands at the end of a decimal text; 0 if nothing does. -/
def exponent? : List Char → Option Int
  | [] => some 0
  | c :: rest =>
    let (negative, digits) := takeSign rest
    if (c = 'e' ∨ c = 'E') ∧ digits ≠ [] ∧ digits.all isAsciiDigit then
      let n : Int := Text.digitsValue digits
      some (if negative then -n else n)
    else none

/-- The floating point number nearest to a decimal text. -/
def read? (cs : List Char) : Option Binary64 := do
  let (negative, rest) := takeSign cs
  let (whole, fraction, rest) ← takeMantissa rest
  let exponent ← exponent? rest
  return .ofDecimal negative (Text.digitsValue (whole ++ fraction)) (exponent - fraction.length)

end Spreadsheet.Decimal
