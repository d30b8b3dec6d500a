import Spreadsheet.Proofs.Sheet.Obtained

/-! # Sheets changed without checks

Lists and maps come into the cells of a sheet by writes and grids that bring them, and by nothing
else (`Unchecked.Reached.admitted`). The cells are kept as those of every sheet: under labels in
their normal spelling, under none twice (`Unchecked.Reached.kept`). -/

namespace Spreadsheet.Sheet

/-- Cells that are kept under labels in their normal spelling, under none twice. -/
structure Kept {α : Type} (cells : OrderedMap String α) : Prop where
  isKey : ∀ k ∈ cells.keys, Label.IsKey k
  nodup : cells.keys.Nodup

section

variable {α β : Type} {cells : OrderedMap String α} {key : String}

theorem Kept.insert (h : Kept cells) (hkey : Label.IsKey key) (a : α) :
    Kept (cells.insert key a) :=
  ⟨isKey_insert a h.isKey hkey, OrderedMap.nodup_keys_insert h.nodup⟩

theorem Kept.erase (h : Kept cells) (key : String) : Kept (cells.erase key) :=
  ⟨isKey_erase key h.isKey, OrderedMap.nodup_keys_erase h.nodup⟩

theorem kept_map {f : α → β} : Kept (cells.map fun x => (x.1, f x.2)) ↔ Kept cells := by
  constructor <;> rintro ⟨hkeys, hnodup⟩
  · rw [OrderedMap.keys_map] at hkeys hnodup
    exact ⟨hkeys, hnodup⟩
  · refine ⟨?_, ?_⟩ <;> rwa [OrderedMap.keys_map]

end

namespace Unchecked

/-- A value that a cell may hold, `brought` being the lists and maps that are brought into cells. -/
def Admits (brought : Value → Prop) (v : Value) : Prop :=
  (∃ a, v = .scalar a) ∨ brought v

/-- A sheet that is read from data, those of a sheet or others, or comes from such a sheet by
writing cells and grids that bring such lists and maps as `brought` tells. -/
inductive Reached (brought : Value → Prop) : Unchecked → Prop where
  | read {data : Value} {s : Sheet} (h : ofWire data = .ok s) : Reached brought (ofSheet s)
  | set {s t : Unchecked} {label : String} {v : Value} (hs : Reached brought s)
      (hv : Admits brought v) (h : s.set label v = .ok t) : Reached brought t
  | withGrid {s : Unchecked} (hs : Reached brought s) {grid : List (List Value)}
      (hgrid : ∀ p v, p.row < s.rows → p.column < s.cols → entryAt? grid p = some v →
        Admits brought v) : Reached brought (s.withGrid grid)

variable {brought : Value → Prop} {s t : Unchecked} {label : String} {v w : Value}

theorem cells_of_set (h : s.set label v = .ok t) : ∃ p, Label.position label = .ok p ∧
    t.cells = v.entered?.elim (s.cells.erase (Label.normalize label))
      fun w => s.cells.insert (Label.normalize label) w := by
  unfold set at h
  cases hkey : (s.withCells []).writable label with
  | error f => rw [hkey] at h; cases h
  | ok key =>
    obtain ⟨p, hp, -, -, rfl⟩ := writable_eq_ok_iff.mp hkey
    rw [hkey] at h
    refine ⟨p, hp, ?_⟩
    cases hv : v.entered? with
    | none =>
      simp only [bind, Except.bind, hv] at h
      exact Except.ok.inj h ▸ rfl
    | some w =>
      simp only [bind, Except.bind, hv] at h
      exact Except.ok.inj h ▸ rfl

/-- What an entry is kept as may be in a cell if the entry may be. -/
theorem Admits.entered (hv : Admits brought v) (h : v.entered? = some w) : Admits brought w := by
  cases v with
  | scalar a =>
    obtain ⟨b, -, rfl⟩ := Option.map_eq_some_iff.mp h
    exact Or.inl ⟨b, rfl⟩
  | list | map => exact Option.some.inj h ▸ hv

/-- **However a sheet has been changed**, its cells are kept under labels in their normal
spelling. -/
theorem Reached.kept (hs : Reached brought s) : Kept s.cells := by
  induction hs with
  | read h => exact kept_map.mpr ⟨(keyed_of_ofWire h).isKey, (keyed_of_ofWire h).nodup⟩
  | @set s t label v _ _ h ih =>
    obtain ⟨p, hp, hcells⟩ := cells_of_set h
    rw [hcells]
    cases v.entered? with
    | none => exact ih.erase _
    | some w => exact ih.insert (Label.isKey_of_position hp) w
  | withGrid => exact ⟨isKey_cellsOf, nodup_cellsOf⟩

/-- **Only what is brought is held**: each cell holds a scalar, or a list or a map that a write or a
grid has brought. -/
theorem Reached.admitted (hs : Reached brought s) : ∀ x ∈ s.cells, Admits brought x.2 := by
  induction hs with
  | read =>
    intro x hx
    obtain ⟨y, -, rfl⟩ := List.mem_map.mp hx
    exact Or.inl ⟨y.2, rfl⟩
  | @set s t label v _ hv h ih =>
    obtain ⟨-, -, hcells⟩ := cells_of_set h
    rw [hcells]
    intro x hx
    cases hentered : v.entered? with
    | none =>
      rw [hentered] at hx
      exact ih x (List.mem_filter.mp hx).1
    | some w =>
      rw [hentered] at hx
      rcases OrderedMap.mem_insert hx with rfl | hx
      · exact hv.entered hentered
      · exact ih x hx
  | withGrid _ hgrid =>
    intro x hx
    obtain ⟨p, hrow, hcolumn, -, hentry⟩ := mem_cellsOf.mp hx
    obtain ⟨v, hv, hentered⟩ := Option.bind_eq_some_iff.mp hentry
    exact (hgrid p v hrow hcolumn hv).entered hentered

/-! ### Sheets of scalars -/

theorem ofSheet_withGrid (s : Sheet) (grid : List (List Scalar)) :
    (ofSheet s).withGrid (grid.map (List.map .scalar)) = ofSheet (s.withGrid grid) := by
  have hcells := @cellsOf_map Value Value Value.entered? s.rows s.cols Scalar Scalar
    Scalar.entered? Value.scalar Value.scalar (fun _ => rfl) grid
  rw [withGrid, ofSheet, ofSheet]
  simp only [hcells, ← withGrid_cells]
  rfl

/-- **A sheet whose cells hold scalars** is what it is without the check. -/
theorem sheet?_eq_some_iff {t : Sheet} : s.sheet? = some t ↔ s = ofSheet t := by
  constructor
  · intro h
    unfold sheet? at h
    split at h
    · next cells hcells =>
      obtain rfl := Option.some.inj h
      rw [ofSheet, withCells, ← scalarCells_eq_iff.mp hcells]
    · cases h
  · rintro rfl
    rw [sheet?, ofSheet, scalarCells_eq_iff.mpr rfl]
    rfl

end Unchecked

end Spreadsheet.Sheet
