import Spreadsheet.Decimal.Digits
import Spreadsheet.Text.Hex

/-!
# Writing decimals

A decimal is written with a point in its place (`positional`) or with one digit before the point
and a power of ten (`scientific`). A `Style` says which powers of ten are written with the point in
its place and whether integers show a fraction.
-/

namespace Spreadsheet.Decimal

/-- How floating point numbers are written: those from 10^-4 to below 10^limit have the point in
its place; `fraction` tells whether an integer so written ends in `.0`. -/
structure Style where
  limit : Int
  fraction : Bool

/-- The sign of a number, and its digits with the point in its place. -/
def positional (fraction : Bool) (d : Digits) : List Char :=
  if d.exponent < 0 then
    '0' :: '.' :: List.replicate (d.exponent.natAbs - 1) '0' ++ d.digits
  else
    let whole := d.exponent.toNat + 1
    let before := d.digits.take whole
    let after := d.digits.drop whole
    before ++ List.replicate (whole - before.length) '0' ++
      (if after.isEmpty then if fraction then ['.', '0'] else [] else '.' :: after)

/-- One digit before the point, and a power of ten with a sign and at least two digits. -/
def scientific (d : Digits) : List Char :=
  let mantissa := match d.digits with
    | [] => []
    | [first] => [first]
    | first :: rest => first :: '.' :: rest
  let sign := if d.exponent < 0 then '-' else '+'
  mantissa ++ 'e' :: sign :: Text.padZeros 2 (Nat.toDigits 10 d.exponent.natAbs)

/-- A decimal in a style. -/
def Style.layout (style : Style) (d : Digits) : List Char :=
  if -4 ≤ d.exponent ∧ d.exponent < style.limit then positional style.fraction d else scientific d

/-- The sign in front of a number. -/
def sign (negative : Bool) : List Char :=
  if negative then ['-'] else []

/-- A floating point number in a style, its digits chosen by `digits`. -/
def Style.write (style : Style) (digits : Fin Binary64.codes → Digits) : Binary64 → List Char
  | .nan => ['n', 'a', 'n']
  | .inf negative => sign negative ++ ['i', 'n', 'f']
  | .finite negative code =>
    sign negative ++ style.layout (if code.val = 0 then ⟨['0'], 0⟩ else digits code)

/-- The shortest text that reads back as the number; integers below 10^16 end in `.0`. -/
def shortestText (x : Binary64) : String :=
  String.ofList (Style.write ⟨16, true⟩ shortest x)

/-- The greatest count of significant digits that a floating point number has, written exactly. -/
def exactDigits : Nat := 767

/-- The number with at most the given count of significant digits (at least one), without zeros
at its end. -/
def significantText (precision : Nat) (x : Binary64) : String :=
  let count := max precision 1
  let digits (code : Fin Binary64.codes) : Digits :=
    let d := significant (min count exactDigits) (Binary64.units code) Binary64.unit
    ⟨dropTrailingZeros d.digits, d.exponent⟩
  String.ofList (Style.write ⟨count, false⟩ digits x)

/-! ### Fixed places -/

/-- Digits from the last one on, with a comma after every third. -/
def groupFromEnd : List Char → List Char
  | a :: b :: c :: d :: rest => a :: b :: c :: ',' :: groupFromEnd (d :: rest)
  | digits => digits

/-- Digits with commas between groups of three, counted from the right. -/
def grouped (digits : List Char) : List Char :=
  (groupFromEnd digits.reverse).reverse

/-- A non-negative number with a fixed count of places after the point, the integer part in groups
of three digits. -/
def fixedDigits (places num den : Nat) : List Char :=
  let n := roundAt num den (-places)
  let whole := grouped (Nat.toDigits 10 (n / powerOfTen places))
  if places = 0 then whole
  else whole ++ '.' :: Text.padZeros places (Nat.toDigits 10 (n % powerOfTen places))

/-- A floating point number with a fixed count of places after the point. -/
def fixedList (places : Nat) : Binary64 → List Char
  | .nan => ['n', 'a', 'n']
  | .inf negative => sign negative ++ ['i', 'n', 'f']
  | .finite negative code =>
    sign negative ++ fixedDigits places (Binary64.units code) Binary64.unit

end Spreadsheet.Decimal
