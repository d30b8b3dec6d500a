import Spreadsheet.Numeral
import Spreadsheet.Text.Blank
import Spreadsheet.Text.UpperCase

/-!
# Labels

A cell is named by letters for its column and a number for its row, as in `AA10`. Columns are
counted `A`, …, `Z`, `AA`, …: a numeral in base 26 without a zero. Row numbers start at 1, positions
at 0. Labels are read in any case, with blanks around them and with decimal digits of any script.

Main statement: `letters_ne_nil` (a column has at least one letter).
-/

namespace Spreadsheet

/-- A cell's place in a grid, counted from 0. -/
structure Position where
  row : Nat
  column : Nat
  deriving DecidableEq, Repr

/-! ### Columns -/

namespace Column

/-- The letter at the given place of the alphabet, counted from 0. -/
def letter (place : Nat) : Char :=
  Char.ofNat (65 + place)

/-- The letters that name a column. -/
def letters (index : Nat) : List Char :=
  if index < 26 then [letter index] else letters (index / 26 - 1) ++ [letter (index % 26)]
termination_by index
decreasing_by omega

/-- The place of an upper-case ASCII letter in the alphabet, counted from 1. -/
def letterValue? (c : Char) : Option Nat :=
  if 65 ≤ c.toNat ∧ c.toNat ≤ 90 then some (c.toNat - 64) else none

/-- The column that a row of upper-case letters names, counted from 1; 0 for no letters. -/
def count? (cs : List Char) : Option Nat :=
  cs.foldlM (fun n c => (letterValue? c).map (n * 26 + ·)) 0

/-- The name of a column. -/
def name (index : Int) : Except Fault String :=
  match index with
  | .ofNat n => .ok (String.ofList (letters n))
  | .negSucc _ => do throw (.badReference (← Numeral.write index) .columnIndex)

/-- The column of a name, in any case. -/
def ofName (s : String) : Except Fault Nat :=
  match count? (Text.upperList s.toList) with
  | some (n + 1) => .ok n
  | _ => .error (.badReference s .columnLetters)

theorem letters_ne_nil (index : Nat) : letters index ≠ [] := by
  rw [letters]; split <;> simp

end Column

/-! ### Cells -/

/-- The label of a position. -/
def Position.label (p : Position) : String :=
  String.ofList (Column.letters p.column) ++ toString (p.row + 1)

namespace Label

/-- Is the character an ASCII letter? -/
def isLetter (c : Char) : Bool :=
  (65 ≤ c.toNat && c.toNat ≤ 90) || (97 ≤ c.toNat && c.toNat ≤ 122)

/-- The letters and the digits of a label without blanks around it. -/
def split? (cs : List Char) : Option (List Char × List Char) :=
  let letters := cs.takeWhile isLetter
  let digits := cs.dropWhile isLetter
  if letters.isEmpty || digits.isEmpty || !digits.all Text.isDigit then none
  else some (letters, digits)

/-- Is the text letters followed by digits? -/
def isLabel (s : String) : Bool :=
  (split? s.toList).isSome

/-- The spelling of a label under which its cell is kept: upper case, no blanks around it. -/
def normalize (s : String) : String :=
  Text.upper (Text.trim s)

/-- The position that a label names. -/
def position (s : String) : Except Fault Position :=
  match split? (Text.trimList s.toList) with
  | none => .error (.badReference s .label)
  | some (letters, digits) => do
    let column ← Column.ofName (String.ofList letters)
    match ← Numeral.read digits with
    | 0 => throw (.badReference s .rowNumber)
    | row + 1 => return ⟨row, column⟩

/-- The label of a row and a column counted from 0. -/
def ofRowColumn (row column : Int) : Except Fault String := do
  if row < 0 then throw (.badReference (← Numeral.write row) .rowIndex)
  let letters ← Column.name column
  return letters ++ (← Numeral.write (row + 1))

end Label

end Spreadsheet
