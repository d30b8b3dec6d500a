import Spreadsheet.Session.Basic

/-!
# Reading cells without a walk

The plain way to compute a cell: its formula runs at once, and every cell that it reads is computed
while it runs. A chain of cells nests as deep as it is long.
-/

namespace Spreadsheet.Session

variable (src : Source)

/-- Computes a cell with a formula that has not been started by running the formula, where at most
the given number of formulas nest. -/
def startNested : Nat → String → String → Run Scalar
  | 0, _, _ => throw .nestedTooDeep
  | depth + 1, key, formula => do
    modify (State.mark key)
    let value ← (evaluateCell (look src (startNested depth)) key formula : StateM State Scalar)
    modify (State.unmark key)
    return value

/-- Reads a cell by nested runs alone. -/
def readNested (label : String) : Run Scalar :=
  look src (startNested src src.formulas.length) label

end Spreadsheet.Session
