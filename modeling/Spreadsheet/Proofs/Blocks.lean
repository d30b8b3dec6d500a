import Spreadsheet.Label
import Mathlib.Data.List.Basic

/-! # Positions row by row

The positions that lie in some rows and in some columns, taken row by row (`block`), are in the order
in which a grid is read (`ordered_block`), if the rows and the columns are given upwards. -/

namespace Spreadsheet.Position

variable {p : Position} {rows columns : List Nat} {positions : List Position}

/-- **Before, row by row**: in a row further up, or further left in the same row. -/
def Before (p q : Position) : Prop :=
  p.row < q.row ∨ p.row = q.row ∧ p.column < q.column

theorem nodup_of_ordered (h : positions.Pairwise Before) : positions.Nodup :=
  h.imp fun {p q} hlt heq => by
    subst heq
    unfold Before at hlt
    omega

/-- The positions in the rows and the columns, row by row. -/
def block (rows columns : List Nat) : List Position :=
  rows.flatMap fun row => columns.map fun column => ⟨row, column⟩

theorem mem_block : p ∈ block rows columns ↔ p.row ∈ rows ∧ p.column ∈ columns := by
  simp only [block, List.mem_flatMap, List.mem_map]
  constructor
  · rintro ⟨row, hrow, column, hcolumn, rfl⟩
    exact ⟨hrow, hcolumn⟩
  · rintro ⟨hrow, hcolumn⟩
    exact ⟨p.row, hrow, p.column, hcolumn, rfl⟩

theorem length_block (rows columns : List Nat) :
    (block rows columns).length = rows.length * columns.length := by
  simp [block, List.length_flatMap]

/-- **The positions of a block are in order.** -/
theorem ordered_block (hrows : rows.Pairwise (· < ·)) (hcolumns : columns.Pairwise (· < ·)) :
    (block rows columns).Pairwise Before := by
  refine List.pairwise_flatMap.mpr ⟨fun row _ => ?_, hrows.imp fun {row row'} hlt p hp q hq => ?_⟩
  · exact List.pairwise_map.mpr (hcolumns.imp fun hlt => Or.inr ⟨rfl, hlt⟩)
  · obtain ⟨column, -, rfl⟩ := List.mem_map.mp hp
    obtain ⟨column', -, rfl⟩ := List.mem_map.mp hq
    exact Or.inl hlt

end Spreadsheet.Position
