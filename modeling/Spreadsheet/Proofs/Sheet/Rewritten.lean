import Spreadsheet.Proofs.Coordinates
import Spreadsheet.Proofs.Sheet.Unchecked

/-! # Sheets rewritten by grids

A sheet that takes its cells from a grid holds just what the grid has in it, row by row and whatever
the lengths of its rows: an entry at each position that has one, if it is neither nothing nor the
empty text, and nothing elsewhere. What the sheet held before has no part in it
(`rewritten_withGrid`). -/

namespace Spreadsheet.Sheet

/-- What a sheet keeps of a grid at a position: the entry there, if it is neither nothing nor the
empty text; a formula without the blanks around it. -/
def kept? (grid : List (List Scalar)) (p : Position) : Option Scalar :=
  (entryAt? grid p).bind fun v => if v = .null ∨ v = .text "" then none else some v.trimFormula

theorem entered?_eq (v : Scalar) :
    v.entered? = if v = .null ∨ v = .text "" then none else some v.trimFormula := by
  cases v with
  | text s => simp [Scalar.entered?, String.isEmpty_iff]
  | _ => simp [Scalar.entered?, Scalar.trimFormula]

variable {s t : Sheet} {grid : List (List Scalar)} {p : Position} {label : String}

theorem kept?_eq (grid : List (List Scalar)) (p : Position) :
    kept? grid p = (entryAt? grid p).bind Scalar.entered? :=
  congrArg _ (funext fun v => (entered?_eq v).symm)

/-- **The sheet `t` is `s` rewritten by a grid**: its cells are what is kept of the grid at the
positions of the sheet, row by row, under their labels, so each position is read as what is kept
there and all else as nothing. It is the same sheet whatever `s` held, even lists and maps, and when
it is rewritten again. -/
structure Rewritten (s t : Sheet) (grid : List (List Scalar)) : Prop where
  name_eq : t.name = s.name
  rows_eq : t.rows = s.rows
  cols_eq : t.cols = s.cols
  cells_eq : t.cells = (Position.block (List.range s.rows) (List.range s.cols)).filterMap fun p =>
    (kept? grid p).map fun v => (p.label, v)
  nodup : t.cells.keys.Nodup
  found : ∀ p : Position, p.row < s.rows → p.column < s.cols →
    t.get p.label = (kept? grid p).getD .null
  coded : ∀ p : Position, p.row < s.rows → p.column < s.cols → p.row + 1 < 10 ^ numeralLimit →
    (do return t.get (← Label.ofRowColumn p.row p.column)) = .ok ((kept? grid p).getD .null)
  lost : ∀ label, (∀ p : Position, p.row < s.rows → p.column < s.cols →
    Label.normalize label ≠ p.label) → t.get label = .null
  forgotten : ∀ cells : OrderedMap String Value,
    (Unchecked.mk s.name s.rows s.cols cells s.rows_pos s.cols_pos).withGrid
      (grid.map (List.map .scalar)) = .ofSheet t
  again : t.withGrid grid = t

theorem cells_withGrid (s : Sheet) (grid : List (List Scalar)) :
    (s.withGrid grid).cells =
      (Position.block (List.range s.rows) (List.range s.cols)).filterMap fun p =>
        (kept? grid p).map fun v => (p.label, v) := by
  rw [withGrid_cells, cellsOf_eq]
  simp only [kept?_eq]

theorem get_withGrid (hrow : p.row < s.rows) (hcolumn : p.column < s.cols) :
    (s.withGrid grid).get p.label = (kept? grid p).getD .null := by
  rw [Sheet.get, (Label.plain_label p).normalize, withGrid_cells, get?_cellsOf hrow hcolumn, kept?_eq]

/-- Under the label of no position of the sheet there is nothing. -/
theorem get_withGrid_of_ne (h : ∀ p : Position, p.row < s.rows → p.column < s.cols →
    Label.normalize label ≠ p.label) : (s.withGrid grid).get label = .null := by
  have hkey : Label.normalize label ∉ (s.withGrid grid).cells.keys := fun hmem => by
    obtain ⟨x, hx, hlabel⟩ := List.mem_map.mp hmem
    rw [withGrid_cells] at hx
    obtain ⟨p, hrow, hcolumn, hp, -⟩ := mem_cellsOf.mp hx
    exact h p hrow hcolumn (hlabel.symm.trans hp)
  rw [Sheet.get, OrderedMap.get?_eq_none_iff.mpr hkey, Option.getD_none]

/-- **A sheet that takes its cells from a grid** is rewritten by it. -/
theorem rewritten_withGrid (s : Sheet) (grid : List (List Scalar)) :
    Rewritten s (s.withGrid grid) grid where
  name_eq := rfl
  rows_eq := rfl
  cols_eq := rfl
  cells_eq := cells_withGrid s grid
  nodup := (keyed_withGrid s grid).nodup
  found _ hrow hcolumn := get_withGrid hrow hcolumn
  coded p hrow hcolumn hfits := by
    rw [Label.ofRowColumn_eq_ok_iff.mpr ⟨p, rfl, rfl, hfits, rfl⟩]
    exact congrArg Except.ok (get_withGrid hrow hcolumn)
  lost _ h := get_withGrid_of_ne h
  forgotten _ := Unchecked.ofSheet_withGrid s grid
  again := rfl

/-- Rows may be short or too long, and there may be too many of them. -/
example : ((small [("C3", .int 1)]).withGrid [[.text "", .text "1"], [], [.text " =A1*2"],
    [.int 4]]).cells = [("B1", .text "1"), ("A3", .text "=A1*2")] := by
  decide +kernel

end Spreadsheet.Sheet
