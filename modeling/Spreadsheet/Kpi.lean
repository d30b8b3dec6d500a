import Spreadsheet.Value.Shown

/-!
# Key figures

The text of a value on a tile that shows one key figure. A number whose magnitude reaches
`Kpi.dollarsFrom` is shown in whole dollars, a smaller one with at most three places after the
point. Integers are rounded as floating point numbers are, so they must not be too large for one.
-/

namespace Spreadsheet

namespace Kpi

/-- The least magnitude that is shown in whole dollars. -/
def dollarsFrom : Number := 1000

/-- Does the magnitude of a number reach `dollarsFrom`? Not-a-number reaches nothing. -/
def reachesDollars (n : Number) : Bool :=
  match n.abs.order? dollarsFrom with
  | some .gt | some .eq => true
  | _ => false

/-- A number in whole dollars. -/
def dollars (n : Number) : Except Overflow (List Char) := do
  let digits := Decimal.fixedList 0 (← n.abs.toFloat)
  return Decimal.sign (n.order? 0 = some .lt) ++ '$' :: digits

/-- Without the zeros at its end, and then without a point there. -/
def dropEmptyPlaces (text : List Char) : List Char :=
  ((text.reverse.dropWhile (· = '0')).dropWhile (· = '.')).reverse

/-- A number with at most three places after the point; nothing is left of zero, or a sign. -/
def places (n : Number) : Except Overflow (List Char) := do
  let text := dropEmptyPlaces (Decimal.fixedList 3 (← n.toFloat))
  return if text = [] ∨ text = ['-', '0'] then ['0'] else text

/-- A number as a key figure. -/
def number (n : Number) : Except Overflow (List Char) :=
  if reachesDollars n then dollars n else places n

end Kpi

/-- A value as a key figure. -/
def Value.kpi : Value → Except Fault String
  | .scalar .null => .ok ""
  | .scalar (.bool b) => .ok (if b then "TRUE" else "FALSE")
  | .scalar (.number n) => ((Kpi.number n).map String.ofList).mapError .overflow
  | v => v.shown

end Spreadsheet
