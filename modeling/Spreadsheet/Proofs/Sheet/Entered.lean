import Spreadsheet.Proofs.Session.Grids
import Spreadsheet.Proofs.Sheet.Obtained

/-! # Grids entered into sheets

A sheet that takes its cells from a grid has, at each position in it, what the grid's entry there is
entered as, and no other cells (`mem_withGrid`, `get?_withGrid`). -/

namespace Spreadsheet.Sheet

variable {s : Sheet} {grid : List (List Scalar)} {p : Position}

/-- **The cells that a grid gives** are its entries in the sheet that leave no cell empty. -/
theorem mem_withGrid {x : String × Scalar} : x ∈ (s.withGrid grid).cells ↔
    ∃ p : Position, p.row < s.rows ∧ p.column < s.cols ∧ x.1 = p.label ∧
      (shownAt? grid p).bind Scalar.entered? = some x.2 := by
  rw [withGrid_cells]
  exact mem_cellsOf

/-- **The cell at a position** is what the grid's entry there is entered as. -/
theorem get?_withGrid (hrow : p.row < s.rows) (hcolumn : p.column < s.cols) :
    (s.withGrid grid).cells.get? p.label = (shownAt? grid p).bind Scalar.entered? := by
  rw [withGrid_cells]
  exact get?_cellsOf hrow hcolumn

end Spreadsheet.Sheet
