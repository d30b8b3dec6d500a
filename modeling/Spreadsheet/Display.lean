import Spreadsheet.Label
import Spreadsheet.Value.Shown

/-!
# Displayed values

The text that is displayed for a value, and a grid of values as a table of texts with the letters of
the columns as headers. Short rows of the grid are filled up with empty texts.
-/

namespace Spreadsheet

/-- A floating point number for display: an integer in full, another number with at most the given
count of significant digits. -/
def Binary64.display (precision : Int) (x : Binary64) : Except Fault String :=
  if x.isIntegral then .ok (toString (x.truncate?.getD 0))
  else if 0 ≤ precision ∧ precision < 0x80000000 then
    .ok (Decimal.significantText precision.toNat x)
  else .error (.badPrecision precision)

/-- A value for display. -/
def Value.display (precision : Int) : Value → Except Fault String
  | .scalar .null => .ok ""
  | .scalar (.bool b) => .ok (if b then "TRUE" else "FALSE")
  | .scalar (.number (.float x)) => x.display precision
  | v => v.shown

/-- A table of texts. -/
structure Table where
  headers : List String
  rows : List (List String)

namespace Table

/-- The texts of a row of `width` values. -/
def displayRow (precision : Int) (width : Nat) (row : List Value) : Except Fault (List String) :=
  (row ++ List.replicate (width - row.length) Value.null).mapM (Value.display precision)

/-- The table of a grid of values. -/
def ofGrid (precision : Int) (grid : List (List Value)) : Except Fault Table := do
  let width := grid.foldl (fun width row => max width row.length) 0
  let headers := (List.range width).map fun column => String.ofList (Column.letters column)
  return ⟨headers, ← grid.mapM (displayRow precision width)⟩

/-- The columns of a table with their headers. -/
def columns (t : Table) : List (String × List String) :=
  t.headers.zipIdx.map fun (header, column) => (header, t.rows.map fun row => row[column]?.getD "")

end Table

end Spreadsheet
