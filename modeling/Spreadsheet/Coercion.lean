import Spreadsheet.Decimal.Reading
import Spreadsheet.Fault
import Spreadsheet.Text.UpperCase
import Spreadsheet.Value.Basic

/-!
# Coercion to numbers

Operators and functions take every value as a number: a truth value as 1 or 0, a numeric text as
its number, and everything else as 0. Numeric texts are decimals, and the numerals in base 16, 8 and
2 that start with `0x`, `0o` and `0b`. They become floating point numbers; a decimal beyond the
format's range is no number.

Main statement: `numbers_list` (the numbers in a list are those of its items, in order).
-/

namespace Spreadsheet

/-- The base that the letter after the zero of a numeral names. -/
def baseOf? (c : Char) : Option Nat :=
  if c = 'x' ∨ c = 'X' then some 16
  else if c = 'o' ∨ c = 'O' then some 8
  else if c = 'b' ∨ c = 'B' then some 2
  else none

/-- The value of an ASCII digit or letter as a digit, up to base 36. -/
def baseDigit? (c : Char) : Option Nat :=
  if 48 ≤ c.toNat ∧ c.toNat ≤ 57 then some (c.toNat - 48)
  else if 97 ≤ c.toNat ∧ c.toNat ≤ 122 then some (c.toNat - 87)
  else if 65 ≤ c.toNat ∧ c.toNat ≤ 90 then some (c.toNat - 55)
  else none

/-- The value of digits in a base. -/
def baseDigits? (base : Nat) (cs : List Char) : Option Nat :=
  cs.foldlM (fun n c => (baseDigit? c).bind fun d => if d < base then some (n * base + d) else none) 0

/-- The number of a numeral after its zero and base letter; both may stand there once more. -/
def baseNumber? (base : Nat) (cs : List Char) : Option Nat :=
  let digits := match cs with
    | '0' :: c :: rest => if baseOf? c = some base then rest else cs
    | _ => cs
  if digits.isEmpty then none else baseDigits? base digits

/-- The number of a numeral in base 16, 8 or 2. -/
def prefixed? : List Char → Option Nat
  | '0' :: c :: rest => (baseOf? c).bind fun base => baseNumber? base rest
  | _ => none

/-- The number that a text without blanks around it writes; 0 if it writes none. -/
def textNumber (cs : List Char) : Except Fault Number :=
  match Decimal.read? cs with
  | some x => .ok (if x.isFinite then .float x else .int 0)
  | none =>
    match prefixed? cs with
    | some n => ((Number.ofIntNearest n).map Number.float).mapError Fault.overflow
    | none => .ok (.int 0)

/-- The number that a scalar is taken for. -/
def Scalar.toNumber : Scalar → Except Fault Number
  | null => .ok (.int 0)
  | bool b => .ok (.int (if b then 1 else 0))
  | number n => .ok n
  | text s => textNumber (Text.trimList s.toList)

namespace Value

/-- The number that a value is taken for; a list or a map is taken for 0. -/
def toNumber : Value → Except Fault Number
  | scalar s => s.toNumber
  | _ => .ok (.int 0)

mutual

/-- The numbers in a value: those of a list's items, at any depth, or the value's own. -/
def numbers : Value → Except Fault (List Number)
  | list items => numbersOfList items
  | v => do return [← v.toNumber]

/-- The numbers in the items of a list, in order. -/
def numbersOfList : List Value → Except Fault (List Number)
  | [] => .ok []
  | v :: rest => do return (← numbers v) ++ (← numbersOfList rest)

end

theorem numbers_list (items : List Value) : numbers (list items) = numbersOfList items := by
  rw [numbers]

end Value

end Spreadsheet
