import Spreadsheet.Proofs.Blocks
import Spreadsheet.Proofs.Coordinates
import Mathlib.Data.Sym.Sym2

/-! # The cells of a range

A range between two labels lists the labels of the rectangle that has the positions they name as
opposite corners: those between the corners on both axes and no others (`mem_rectangle`), row by row
(`ordered_rectangle`), each of them once. Which of its corners name the rectangle does not matter,
nor in which order (`rectangle_eq_iff`). -/

namespace Spreadsheet.Range

variable {a b n : Nat} {p q x : Position}

/-! ### One axis -/

theorem mem_between : n ∈ between a b ↔ min a b ≤ n ∧ n ≤ max a b := by
  rw [between, List.mem_range'_1]
  omega

theorem ordered_between (a b : Nat) : (between a b).Pairwise (· < ·) :=
  List.pairwise_lt_range' ..

theorem length_between (a b : Nat) : (between a b).length = ((b : Int) - a).natAbs + 1 := by
  rw [between, List.length_range']
  omega

/-- The numbers between two numbers are those between them in either order. -/
theorem between_congr {a' b' : Nat} (h : s(a, b) = s(a', b')) : between a b = between a' b' := by
  rcases Sym2.eq_iff.mp h with ⟨rfl, rfl⟩ | ⟨rfl, rfl⟩
  · rfl
  · rw [between, between, min_comm, max_comm]

/-! ### Both axes -/

theorem rectangle_eq_block (p q : Position) : rectangle p q =
    Position.block (between p.row q.row) (between p.column q.column) := rfl

/-- **The positions of a rectangle** are those between its corners on both axes. -/
theorem mem_rectangle : x ∈ rectangle p q ↔
    (min p.row q.row ≤ x.row ∧ x.row ≤ max p.row q.row) ∧
      min p.column q.column ≤ x.column ∧ x.column ≤ max p.column q.column := by
  rw [rectangle_eq_block, Position.mem_block, mem_between, mem_between]

theorem ordered_rectangle (p q : Position) : (rectangle p q).Pairwise Position.Before :=
  Position.ordered_block (ordered_between _ _) (ordered_between _ _)

theorem length_rectangle (p q : Position) : (rectangle p q).length =
    (((q.row : Int) - p.row).natAbs + 1) * (((q.column : Int) - p.column).natAbs + 1) := by
  rw [rectangle_eq_block, Position.length_block, length_between, length_between]

/-- **Corners name one rectangle** if their rows are the same two, and so are their columns. -/
theorem rectangle_eq_iff {p' q' : Position} : rectangle p q = rectangle p' q' ↔
    s(p.row, q.row) = s(p'.row, q'.row) ∧ s(p.column, q.column) = s(p'.column, q'.column) := by
  constructor
  · intro h
    have hp : p ∈ rectangle p' q' := h ▸ mem_rectangle.mpr (by omega)
    have hq : q ∈ rectangle p' q' := h ▸ mem_rectangle.mpr (by omega)
    have hp' : p' ∈ rectangle p q := h ▸ mem_rectangle.mpr (by omega)
    have hq' : q' ∈ rectangle p q := h ▸ mem_rectangle.mpr (by omega)
    rw [mem_rectangle] at hp hq hp' hq'
    rw [Sym2.eq_iff, Sym2.eq_iff]
    omega
  · rintro ⟨hrow, hcolumn⟩
    rw [rectangle_eq_block, rectangle_eq_block, between_congr hrow, between_congr hcolumn]

/-- **The positions of a rectangle, row by row**: those between its corners on both axes, in their
order, as many as its sides tell. -/
structure Fills (p q : Position) (positions : List Position) : Prop where
  mem_iff : ∀ x, x ∈ positions ↔ (min p.row q.row ≤ x.row ∧ x.row ≤ max p.row q.row) ∧
    min p.column q.column ≤ x.column ∧ x.column ≤ max p.column q.column
  ordered : positions.Pairwise Position.Before
  length_eq : positions.length =
    (((q.row : Int) - p.row).natAbs + 1) * (((q.column : Int) - p.column).natAbs + 1)

theorem fills_rectangle (p q : Position) : Fills p q (rectangle p q) :=
  ⟨fun _ => mem_rectangle, ordered_rectangle p q, length_rectangle p q⟩

/-! ### Ranges -/

/-- No label is listed twice. -/
theorem Fills.nodup {positions : List Position} (h : Fills p q positions) :
    (positions.map Position.label).Nodup :=
  (Position.nodup_of_ordered h.ordered).map Label.label_injective

theorem Fills.row_lt {positions : List Position} (h : Fills p q positions)
    (hp : p.row + 1 < 10 ^ numeralLimit) (hq : q.row + 1 < 10 ^ numeralLimit)
    (hx : x ∈ positions) : x.row + 1 < 10 ^ numeralLimit := by
  have := ((h.mem_iff x).mp hx).1
  omega

/-- **A range lists the labels of its rectangle**, row by row: the labels that rows and columns have,
each once; and another range lists the same if, and only if, it names the rectangle by corners in
the same two rows and the same two columns. -/
theorem labels_rectangle {l m : String} (hl : Label.position l = .ok p)
    (hm : Label.position m = .ok q) : ∃ positions, Fills p q positions ∧
      labels (l ++ ":" ++ m) = .ok (positions.map Position.label) ∧
      (positions.map Position.label).Nodup ∧
      (∀ x ∈ positions, Label.ofRowColumn x.row x.column = .ok x.label) ∧
      ∀ (l' m' : String) (p' q' : Position), Label.position l' = .ok p' →
        Label.position m' = .ok q' → (labels (l' ++ ":" ++ m') = labels (l ++ ":" ++ m) ↔
          s(p'.row, q'.row) = s(p.row, q.row) ∧ s(p'.column, q'.column) = s(p.column, q.column)) := by
  have hfills := fills_rectangle p q
  refine ⟨rectangle p q, hfills, Label.labels_of_positions hl hm, hfills.nodup, fun x hx => ?_,
    fun l' m' p' q' hl' hm' => ?_⟩
  · have hrow := hfills.row_lt (Label.row_lt_of_position hl) (Label.row_lt_of_position hm) hx
    exact Label.ofRowColumn_eq_ok_iff.mpr ⟨x, rfl, rfl, hrow, rfl⟩
  · rw [Label.labels_of_positions hl hm, Label.labels_of_positions hl' hm', Except.ok.injEq,
      (List.map_injective_iff.mpr Label.label_injective).eq_iff, rectangle_eq_iff]

theorem labels_rectangle_backwards : Label.position "b3" = .ok ⟨2, 1⟩ ∧
    Label.position " A2" = .ok ⟨1, 0⟩ ∧ Label.position "a3" = .ok ⟨2, 0⟩ ∧
      Label.position "B02" = .ok ⟨1, 1⟩ ∧
        (∃ positions, Fills ⟨2, 1⟩ ⟨1, 0⟩ positions ∧
          labels ("b3" ++ ":" ++ " A2") = .ok (positions.map Position.label)) ∧
            labels ("b3" ++ ":" ++ " A2") = .ok ["A2", "B2", "A3", "B3"] ∧
              labels ("a3" ++ ":" ++ "B02") = labels ("b3" ++ ":" ++ " A2") := by
  have hl : Label.position "b3" = .ok ⟨2, 1⟩ := rfl
  have hm : Label.position " A2" = .ok ⟨1, 0⟩ := rfl
  have hl' : Label.position "a3" = .ok ⟨2, 0⟩ := rfl
  have hm' : Label.position "B02" = .ok ⟨1, 1⟩ := rfl
  have hlabels : labels ("b3" ++ ":" ++ " A2") = .ok ["A2", "B2", "A3", "B3"] := by decide +kernel
  obtain ⟨positions, hfills, hlisted, -, -, hnamed⟩ := labels_rectangle hl hm
  exact ⟨hl, hm, hl', hm', ⟨positions, hfills, hlisted⟩, hlabels,
    (hnamed "a3" "B02" _ _ hl' hm').mpr ⟨rfl, Sym2.eq_swap⟩⟩

end Spreadsheet.Range
