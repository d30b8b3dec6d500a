import Spreadsheet.Proofs.Sheet.Entries
import Spreadsheet.Proofs.Sheet.Loading

/-! # Sheets that can be obtained

Sheets are read from data, and changed by writes of single cells and by grids (`Obtained`). However
one is obtained, its cells are kept under labels as they are spelled normally, and under no label
twice (`Obtained.keyed`). -/

namespace Spreadsheet.Sheet

variable {s t : Sheet} {label : String} {v : Scalar}

/-- **A label may be written** if its position is in the grid, and it is written in its normal
spelling. -/
theorem writable_eq_ok_iff {key : String} : s.writable label = .ok key ↔
    ∃ p, Label.position label = .ok p ∧ p.row < s.rows ∧ p.column < s.cols ∧
      key = Label.normalize label := by
  unfold writable
  cases hp : Label.position label with
  | error f => simp [bind, Except.bind]
  | ok p =>
    by_cases hin : p.row < s.rows ∧ p.column < s.cols
    · simp [bind, Except.bind, pure, Except.pure, hin, eq_comm]
    · have hout : ∀ q, p = q → q.row < s.rows → ¬ q.column < s.cols := by
        rintro _ rfl hrow hcolumn
        exact hin ⟨hrow, hcolumn⟩
      simp only [bind, Except.bind, hin, if_false, throw, throwThe, MonadExceptOf.throw,
        reduceCtorEq, false_iff]
      rintro ⟨q, hq, hrow, hcolumn, -⟩
      exact hout q (Except.ok.inj hq) hrow hcolumn

/-- **A write succeeds in the grid**, and changes the one cell under the label as it is written. -/
theorem set_eq_ok_iff : s.set label v = .ok t ↔ ∃ p, Label.position label = .ok p ∧
    p.row < s.rows ∧ p.column < s.cols ∧
      t = { s with cells := v.entered?.elim (s.cells.erase (Label.normalize label))
                    fun w => s.cells.insert (Label.normalize label) w } := by
  unfold set
  cases hkey : s.writable label with
  | error f =>
    have hno : ∀ p, Label.position label = .ok p → p.row < s.rows → ¬ p.column < s.cols :=
      fun p hp hrow hcolumn => by
        cases hkey.symm.trans (writable_eq_ok_iff.mpr ⟨p, hp, hrow, hcolumn, rfl⟩)
    simp only [bind, Except.bind, reduceCtorEq, false_iff]
    rintro ⟨p, hp, hrow, hcolumn, -⟩
    exact hno p hp hrow hcolumn
  | ok key =>
    obtain ⟨p, hp, hrow, hcolumn, rfl⟩ := writable_eq_ok_iff.mp hkey
    rw [hp]
    cases v.entered? <;> simp [bind, Except.bind, pure, Except.pure, hrow, hcolumn, eq_comm]

/-- A sheet that is read from data, or comes from such a sheet by writing cells and grids. -/
inductive Obtained : Sheet → Prop where
  | read {data : Value} {s : Sheet} (h : ofWire data = .ok s) : Obtained s
  | set {s t : Sheet} {label : String} {v : Scalar} (hs : Obtained s)
      (h : s.set label v = .ok t) : Obtained t
  | withGrid {s : Sheet} (hs : Obtained s) (grid : List (List Scalar)) : Obtained (s.withGrid grid)

/-- Cells are kept under labels in their normal spelling, under none twice. -/
structure Keyed (s : Sheet) : Prop where
  isKey : ∀ k ∈ s.cells.keys, Label.IsKey k
  nodup : s.cells.keys.Nodup

/-! ### Reading -/

theorem isKey_insert {α : Type} {cells : OrderedMap String α} {key : String} (a : α)
    (hcells : ∀ k ∈ cells.keys, Label.IsKey k) (hkey : Label.IsKey key) :
    ∀ k ∈ (cells.insert key a).keys, Label.IsKey k := by
  intro k hk
  rw [OrderedMap.keys_insert] at hk
  split_ifs at hk
  · exact hcells k hk
  · rcases List.mem_append.mp hk with hk | hk
    · exact hcells k hk
    · exact List.mem_singleton.mp hk ▸ hkey

theorem isKey_erase {α : Type} {cells : OrderedMap String α} (key : String)
    (hcells : ∀ k ∈ cells.keys, Label.IsKey k) : ∀ k ∈ (cells.erase key).keys, Label.IsKey k :=
  fun k hk => hcells k ((List.filter_sublist.map Prod.fst).subset hk)

theorem isKey_of_labelled {entries : List (Scalar × Value)} {m : OrderedMap String Value}
    (h : labelled entries = .ok m) : ∀ k ∈ m.keys, Label.IsKey k :=
  labelled_induction (motive := fun _ m => ∀ k ∈ m.keys, Label.IsKey k)
    (fun _ _ _ _ _ hkey hm => isKey_insert _ hm (Label.isKey_of_keyLabel? hkey)) h
    (by simp [OrderedMap.keys])

theorem keyed_of_ofWire {data : Value} (h : ofWire data = .ok s) : s.Keyed := by
  refine ⟨?_, nodup_of_ofWire h⟩
  obtain ⟨entries, rfl, hwire, -⟩ := ofWire_eq_ok.mp h
  cases hcells : Value.field? entries "cells" with
  | none =>
    rw [hcells] at hwire
    exact (Prod.mk.inj hwire).1 ▸ by simp [OrderedMap.keys]
  | some cells =>
    cases cells with
    | map cells =>
      have hkeys := isKey_of_labelled (labelled_of_ofWire h hcells)
      rwa [OrderedMap.keys_map] at hkeys
    | scalar | list => rw [hcells] at hwire; cases (Prod.mk.inj hwire).2

/-! ### Writing -/

theorem Keyed.set (hs : s.Keyed) (h : s.set label v = .ok t) : t.Keyed := by
  obtain ⟨p, hp, -, -, rfl⟩ := set_eq_ok_iff.mp h
  cases v.entered? with
  | none => exact ⟨isKey_erase _ hs.isKey, OrderedMap.nodup_keys_erase hs.nodup⟩
  | some w =>
    exact ⟨isKey_insert w hs.isKey (Label.isKey_of_position hp),
      OrderedMap.nodup_keys_insert hs.nodup⟩

/-! ### Grids -/

theorem keyed_withGrid (s : Sheet) (grid : List (List Scalar)) : (s.withGrid grid).Keyed where
  isKey := by
    rw [withGrid_cells]
    exact isKey_cellsOf
  nodup := by
    rw [withGrid_cells]
    exact nodup_cellsOf

/-- **Every sheet that can be obtained** keeps its cells under labels in their normal spelling. -/
theorem Obtained.keyed (h : Obtained s) : s.Keyed := by
  induction h with
  | read h => exact keyed_of_ofWire h
  | set _ h ih => exact ih.set h
  | withGrid _ grid => exact keyed_withGrid _ grid

end Spreadsheet.Sheet
