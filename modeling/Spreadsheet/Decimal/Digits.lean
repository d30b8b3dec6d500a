import Spreadsheet.Binary64.Decimal

/-!
# The decimal digits of a number

A positive number is approximated by a decimal with a given count of significant digits
(`significant`), with a given count of places after the point (`roundAt`), or with the fewest digits
that read back as the same number (`shortest`).
-/

namespace Spreadsheet.Decimal

/-- A positive decimal: the digits `d₀ d₁ d₂ …` stand for `d₀.d₁d₂… · 10^exponent`. -/
structure Digits where
  digits : List Char
  exponent : Int

/-- Without the zeros at its end. -/
def dropTrailingZeros (digits : List Char) : List Char :=
  (digits.reverse.dropWhile (· = '0')).reverse

/-- The decimal of a positive number that has been rounded to `n` units of its last of `count`
digits. Rounding up to a power of ten makes one digit more, a zero, which is left out. -/
def Digits.ofRounded (count n : Nat) (magnitude : Int) : Digits :=
  let digits := Nat.toDigits 10 n
  ⟨digits.take count, magnitude + (digits.length - count)⟩

/-- The nearest decimal with `count` significant digits, zeros at its end included. -/
def significant (count num den : Nat) : Digits :=
  let m := magnitude num den
  .ofRounded count (roundAt num den (m - (count - 1))) m

/-- The decimals of `count` digits next to a number, below and above; the nearer one first, and of
two equally near the one whose last digit is even. -/
def neighbours (count num den : Nat) : List Nat :=
  let nearest := roundAt num den (magnitude num den - (count - 1))
  [nearest, nearest + 1, nearest - 1]

/-- The first decimal of `count` digits next to the number that reads back as it. -/
def readsBack? (x : Binary64) (count num den : Nat) : Option Digits :=
  let m := magnitude num den
  (neighbours count num den).find? (fun n => Binary64.ofDecimal false n (m - (count - 1)) == x)
    |>.map (.ofRounded count · m)

/-- The decimal with the fewest digits that reads back as the positive number with the given code.
Seventeen digits always do. -/
def shortest (code : Fin Binary64.codes) : Digits :=
  let num := Binary64.units code
  let found := (List.range 17).findSome? fun count =>
    readsBack? (.finite false code) (count + 1) num Binary64.unit
  found.getD (significant 17 num Binary64.unit)

end Spreadsheet.Decimal
