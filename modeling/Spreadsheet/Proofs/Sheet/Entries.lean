import Spreadsheet.Proofs.Blocks
import Spreadsheet.Proofs.Keys
import Spreadsheet.Proofs.OrderedMap
import Spreadsheet.Sheet.Unchecked

/-! # The cells that grids give

Whatever the entries of a grid are, the cells that it gives go through the positions of the sheet
row by row (`cellsOf_eq`). It gives one just at the positions whose entries leave none empty
(`mem_cellsOf`), under the labels of these positions, so under labels in their normal spelling
(`isKey_cellsOf`) and under none twice (`nodup_cellsOf`). -/

namespace Spreadsheet.Sheet

variable {α β : Type} {entered? : α → Option β} {rows cols : Nat} {grid : List (List α)}
  {p : Position} {x : String × β}

/-- The entry of a grid at a position. -/
def entryAt? (grid : List (List α)) (p : Position) : Option α :=
  grid[p.row]?.bind (·[p.column]?)

/-- The first items of a list, with their places, are the items at the first places. -/
theorem flatMap_take_zipIdx {γ : Type} (f : α × Nat → List γ) (l : List α) (n : Nat) :
    (l.take n).zipIdx.flatMap f = (List.range n).flatMap fun i => l[i]?.elim [] fun a => f (a, i) := by
  induction n with
  | zero => simp
  | succ n ih =>
    rw [List.range_succ, List.flatMap_append, ← ih, List.take_add_one, List.zipIdx_append,
      List.flatMap_append]
    cases hitem : l[n]? with
    | none => simp [hitem]
    | some a =>
      have hlt : n < l.length := (List.getElem?_eq_some_iff.mp hitem).1
      simp [hitem, Nat.min_eq_left hlt.le]

/-- **The cells that a grid gives**, row by row: at each position, that of its entry there. -/
theorem cellsOf_eq (entered? : α → Option β) (rows cols : Nat) (grid : List (List α)) :
    cellsOf entered? rows cols grid =
      (Position.block (List.range rows) (List.range cols)).filterMap fun p =>
        ((entryAt? grid p).bind entered?).map fun v => (p.label, v) := by
  rw [cellsOf, Position.block, List.filterMap_flatMap, flatMap_take_zipIdx]
  refine List.flatMap_congr fun row _ => ?_
  rw [List.filterMap_map]
  cases hvalues : grid[row]? with
  | none => simp [entryAt?, hvalues]
  | some values =>
    dsimp only [Option.elim_some]
    rw [List.filterMap_eq_flatMap_toList, List.filterMap_eq_flatMap_toList, flatMap_take_zipIdx]
    refine List.flatMap_congr fun column _ => ?_
    cases hvalue : values[column]? <;> simp [entryAt?, hvalues, hvalue]

/-- **The cells that a grid gives** are its entries in the sheet that leave no cell empty. -/
theorem mem_cellsOf : x ∈ cellsOf entered? rows cols grid ↔
    ∃ p : Position, p.row < rows ∧ p.column < cols ∧ x.1 = p.label ∧
      (entryAt? grid p).bind entered? = some x.2 := by
  rw [cellsOf_eq, List.mem_filterMap]
  constructor
  · rintro ⟨p, hp, hx⟩
    obtain ⟨v, hv, rfl⟩ := Option.map_eq_some_iff.mp hx
    obtain ⟨hrow, hcolumn⟩ := Position.mem_block.mp hp
    exact ⟨p, List.mem_range.mp hrow, List.mem_range.mp hcolumn, rfl, hv⟩
  · rintro ⟨p, hrow, hcolumn, hlabel, hentry⟩
    refine ⟨p, Position.mem_block.mpr ⟨List.mem_range.mpr hrow, List.mem_range.mpr hcolumn⟩, ?_⟩
    rw [hentry, Option.map_some, ← hlabel]

theorem isKey_cellsOf : ∀ k ∈ OrderedMap.keys (cellsOf entered? rows cols grid), Label.IsKey k := by
  intro k hk
  obtain ⟨x, hx, rfl⟩ := List.mem_map.mp hk
  obtain ⟨p, -, -, hlabel, -⟩ := mem_cellsOf.mp hx
  exact hlabel ▸ Label.isKey_label p

theorem nodup_cellsOf : (OrderedMap.keys (cellsOf entered? rows cols grid)).Nodup := by
  have hordered := Position.ordered_block (List.pairwise_lt_range (n := rows))
    (List.pairwise_lt_range (n := cols))
  rw [OrderedMap.keys, cellsOf_eq]
  refine List.pairwise_map.mpr (List.Pairwise.filterMap _ (fun p q hne x hx y hy => ?_)
    (Position.nodup_of_ordered hordered))
  obtain ⟨_, -, rfl⟩ := Option.map_eq_some_iff.mp hx
  obtain ⟨_, -, rfl⟩ := Option.map_eq_some_iff.mp hy
  exact fun heq => hne (Label.label_injective heq)

/-- **The cell at a position** is what the grid's entry there is kept as. -/
theorem get?_cellsOf (hrow : p.row < rows) (hcolumn : p.column < cols) :
    OrderedMap.get? (cellsOf entered? rows cols grid) p.label =
      (entryAt? grid p).bind entered? := by
  refine Option.ext fun v => ?_
  rw [OrderedMap.get?_eq_some_iff nodup_cellsOf, mem_cellsOf]
  constructor
  · rintro ⟨q, -, -, hlabel, hv⟩
    exact Label.label_injective hlabel ▸ hv
  · exact fun hv => ⟨p, hrow, hcolumn, rfl, hv⟩

/-- A grid with other entries that are kept alike gives the same cells with other contents. -/
theorem cellsOf_map {γ δ : Type} {given? : γ → Option δ} {f : γ → α} {g : δ → β}
    (h : ∀ a, entered? (f a) = (given? a).map g) (grid : List (List γ)) :
    cellsOf entered? rows cols (grid.map (List.map f)) =
      (cellsOf given? rows cols grid).map fun x => (x.1, g x.2) := by
  simp only [cellsOf, ← List.map_take, List.zipIdx_map, List.flatMap_map, List.map_flatMap,
    List.filterMap_map, List.map_filterMap, Function.comp_def, Prod.map, id, h, Option.map_map]

end Spreadsheet.Sheet
