import Spreadsheet.Sheet.Wire

/-!
# Sheets that have not been checked

Writes and grids are not checked for what they bring, so the cells of a sheet that has been changed
may hold lists and maps. Only when it is read from data again have its cells to be scalars.

Main statement: `withGrid_cells` (the cells of a sheet with a grid of scalars).
-/

namespace Spreadsheet

/-- The entry as it is kept, if it leaves no cell empty; lists and maps as they are. -/
def Value.entered? : Value → Option Value
  | .scalar v => v.entered?.map .scalar
  | v => some v

namespace Sheet

/-- The cells that a grid gives in so many rows and columns, where `entered?` tells what an entry is
kept as. -/
def cellsOf {α β : Type} (entered? : α → Option β) (rows cols : Nat) (grid : List (List α)) :
    OrderedMap String β :=
  (grid.take rows).zipIdx.flatMap fun (values, row) =>
    (values.take cols).zipIdx.filterMap fun (value, column) =>
      (entered? value).map fun v => ((Position.mk row column).label, v)

theorem withGrid_cells (s : Sheet) (grid : List (List Scalar)) :
    (s.withGrid grid).cells = cellsOf Scalar.entered? s.rows s.cols grid := rfl

/-- A sheet whose cells may hold lists and maps. -/
structure Unchecked where
  name : String
  rows : Nat
  cols : Nat
  cells : OrderedMap String Value
  rows_pos : 0 < rows
  cols_pos : 0 < cols

namespace Unchecked

/-- The sheet with the given cells. -/
def withCells (s : Unchecked) (cells : OrderedMap String Scalar) : Sheet :=
  { name := s.name, rows := s.rows, cols := s.cols, cells
    rows_pos := s.rows_pos, cols_pos := s.cols_pos }

/-- A sheet, its cells as they are. -/
def ofSheet (s : Sheet) : Unchecked :=
  { name := s.name, rows := s.rows, cols := s.cols
    cells := s.cells.map fun (label, v) => (label, .scalar v)
    rows_pos := s.rows_pos, cols_pos := s.cols_pos }

/-- The sheet, if its cells hold scalars. -/
def sheet? (s : Unchecked) : Option Sheet :=
  match scalarCells s.cells with
  | (cells, []) => some (s.withCells cells)
  | _ => none

/-- The content of a cell: nothing if it is empty. -/
def get (s : Unchecked) (label : String) : Value :=
  (s.cells.get? (Label.normalize label)).getD .null

/-- The sheet with a cell written; nothing and the empty text clear the cell. -/
def set (s : Unchecked) (label : String) (value : Value) : Except Fault Unchecked := do
  let key ← (s.withCells []).writable label
  match value.entered? with
  | none => return { s with cells := s.cells.erase key }
  | some v => return { s with cells := s.cells.insert key v }

/-- The sheet with its cells replaced by the entries of a grid, as far as they lie in it. -/
def withGrid (s : Unchecked) (grid : List (List Value)) : Unchecked :=
  { s with cells := cellsOf Value.entered? s.rows s.cols grid }

/-- A cell as data; a list or a map as a literal. -/
def cellToWire : Value → Value
  | .scalar v => Sheet.cellToWire v
  | v => .ofFields [("v", v)]

/-- The sheet as data. -/
def toWire (s : Unchecked) : Value :=
  .ofFields [
    ("name", .text s.name),
    ("rows", .int s.rows),
    ("cols", .int s.cols),
    ("cells", .ofFields (s.cells.map fun (label, v) => (label, cellToWire v)))]

end Unchecked

end Sheet

end Spreadsheet
