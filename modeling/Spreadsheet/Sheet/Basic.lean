import Spreadsheet.Label
import Spreadsheet.Sheet.Literal

/-!
# Sheets

A sheet is a named grid of `rows` by `cols` with cells kept under their labels. Cells may lie
outside the grid: they are read and computed, but not written or shown. A write gives a new sheet.

Main statement: `get_set_self` (what is written is read back).
-/

namespace Spreadsheet

/-- A sheet: its name, its grid, and its cells in the order in which they were made. -/
structure Sheet where
  name : String
  rows : Nat
  cols : Nat
  cells : OrderedMap String Scalar
  rows_pos : 0 < rows
  cols_pos : 0 < cols
  deriving Repr

namespace Sheet

/-- The content of a cell: nothing if it is empty. -/
def get (s : Sheet) (label : String) : Scalar :=
  (s.cells.get? (Label.normalize label)).getD .null

/-- The labels of the cells that hold formulas, in order. -/
def formulas (s : Sheet) : List String :=
  (s.cells.filter (·.2.isFormula)).map Prod.fst

/-- The spelling of a label under which it may be written; its cell has to lie in the grid. -/
def writable (s : Sheet) (label : String) : Except Fault String := do
  let p ← Label.position label
  if p.row < s.rows ∧ p.column < s.cols then return Label.normalize label
  else throw (.outOfBounds label s.rows s.cols)

/-- The sheet with a cell written; nothing and the empty text clear the cell. -/
def set (s : Sheet) (label : String) (value : Scalar) : Except Fault Sheet := do
  let key ← s.writable label
  match value.entered? with
  | none => return { s with cells := s.cells.erase key }
  | some v => return { s with cells := s.cells.insert key v }

/-- The entries of one row of a grid that leave no cell empty, with their labels. -/
def enteredRow (row : Nat) (values : List Scalar) : List (String × Scalar) :=
  values.zipIdx.filterMap fun (value, column) =>
    value.entered?.map fun v => ((Position.mk row column).label, v)

/-- The sheet with its cells replaced by the entries of a grid, as far as they lie in it. -/
def withGrid (s : Sheet) (grid : List (List Scalar)) : Sheet :=
  { s with
    cells := (grid.take s.rows).zipIdx.flatMap fun (values, row) =>
      enteredRow row (values.take s.cols) }

theorem get_set_self {s t : Sheet} {label : String} {value v : Scalar}
    (h : s.set label value = .ok t) (hv : value.entered? = some v) : t.get label = v := by
  unfold set writable at h
  cases hp : Label.position label with
  | error f => simp [hp, bind, Except.bind] at h
  | ok p =>
    by_cases hb : p.row < s.rows ∧ p.column < s.cols
    · simp only [hp, bind, Except.bind, hb, and_self, if_true, pure, Except.pure, hv] at h
      injection h with h
      subst h
      simp [get, OrderedMap.get?_insert_self]
    · simp [hp, bind, Except.bind, hb, throw, throwThe, MonadExceptOf.throw] at h

end Sheet

end Spreadsheet
