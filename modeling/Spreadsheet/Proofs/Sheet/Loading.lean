import Spreadsheet.Proofs.OrderedMap
import Spreadsheet.Proofs.Session.Regular
import Spreadsheet.Sheet.Wire

/-! # Reading sheets from data

A sheet is read from a map whose four fields are as they have to be (`ofWire_eq_ok`). Its cells are
entered one after the other under their labels (`labelled_induction`), so no label is kept twice,
and a cell holds what the data say under its label, if they say one thing (`get?_labelled`). -/

namespace Spreadsheet

/-- A map from texts holds what its fields say. -/
theorem Value.field?_ofFields {fields : List (String × Value)} (key : String) :
    Value.field? (fields.map fun x => (.text x.1, x.2)) key = fields.lookup key := by
  induction fields with
  | nil => rfl
  | cons field fields ih =>
    obtain ⟨k, v⟩ := field
    have hsame : (Scalar.text k).sameKey (.text key) = decide (k = key) := by
      simp [Scalar.sameKey, Scalar.number?]
    unfold Value.field? at ih ⊢
    rw [List.map_cons, List.find?_cons, List.lookup_cons]
    by_cases hk : k = key
    · subst hk
      simp [hsame]
    · have hk' : (key == k) = false := beq_false_of_ne (Ne.symm hk)
      simpa [hsame, hk, hk'] using ih

namespace Sheet

/-- **A sheet is read** from its four fields, if none of them has a defect. -/
theorem ofWire_eq_ok {data : Value} {s : Sheet} : ofWire data = .ok s ↔ ∃ entries,
    data = .map entries ∧ cellsOfWire (Value.field? entries "cells") = (s.cells, []) ∧
      nameOfWire (Value.field? entries "name") = .ok s.name ∧
      size? (Value.field? entries "rows") = some ⟨s.rows, s.rows_pos⟩ ∧
      size? (Value.field? entries "cols") = some ⟨s.cols, s.cols_pos⟩ := by
  constructor
  · intro h
    unfold ofWire at h
    split at h
    · next entries =>
      refine ⟨entries, rfl, ?_⟩
      dsimp only at h
      split at h
      · next hname hrows hcols hdefects =>
        obtain rfl := Except.ok.inj h
        exact ⟨Prod.ext rfl hdefects, hname, hrows, hcols⟩
      · cases h
    · cases h
  · rintro ⟨entries, rfl, hcells, hname, hrows, hcols⟩
    simp only [ofWire, hcells, hname, hrows, hcols]

/-! ### Cells -/

/-- Cells without defects are the data of scalars. -/
theorem scalarCells_eq_iff {cells : OrderedMap String Value} {m : OrderedMap String Scalar} :
    scalarCells cells = (m, []) ↔ cells = m.map fun x => (x.1, Value.scalar x.2) := by
  constructor
  · intro h
    obtain ⟨rfl, hdefects⟩ := Prod.mk.inj h
    clear h
    induction cells with
    | nil => rfl
    | cons x cells ih =>
      obtain ⟨label, v⟩ := x
      cases v with
      | scalar v =>
        simp only [List.filterMap_cons, List.map_cons] at hdefects ⊢
        rw [← ih hdefects]
      | list | map =>
        simp only [List.filterMap_cons] at hdefects
        cases hdefects
  · rintro rfl
    simp [scalarCells, List.filterMap_map]

/-- **What each step keeps** of a fold that succeeds, as long as the rest of the list is told. -/
theorem foldlM_induction {α β ε : Type} {f : β → α → Except ε β} {motive : List α → β → Prop}
    (step : ∀ a rest b b', f b a = .ok b' → motive (a :: rest) b → motive rest b') :
    ∀ {l : List α} {b c : β}, l.foldlM f b = .ok c → motive l b → motive [] c
  | [], _, _, h, hb => Except.ok.inj h ▸ hb
  | a :: l, b, _, h, hb => by
    rw [List.foldlM_cons] at h
    cases hf : f b a with
    | error e => rw [hf] at h; cases h
    | ok b' =>
      rw [hf] at h
      exact foldlM_induction step h (step a l b b' hf hb)

variable {entries : List (Scalar × Value)} {m : OrderedMap String Value}

/-- What entering a cell keeps holds when all cells are entered. -/
theorem labelled_induction {motive : List (Scalar × Value) → OrderedMap String Value → Prop}
    (step : ∀ key v rest m label, keyLabel? key = some label → motive ((key, v) :: rest) m →
      motive rest (m.insert label (cellOfWire v)))
    (h : labelled entries = .ok m) (start : motive entries []) : motive [] m := by
  refine foldlM_induction (fun x rest b b' hx hb => ?_) h start
  obtain ⟨key, v⟩ := x
  cases hkey : keyLabel? key with
  | none => simp only [hkey] at hx; cases hx
  | some label =>
    simp only [hkey] at hx
    exact Except.ok.inj hx ▸ step key v rest b label hkey hb

theorem nodup_labelled (h : labelled entries = .ok m) : m.keys.Nodup :=
  labelled_induction (motive := fun _ m => m.keys.Nodup)
    (fun _ _ _ _ _ _ hm => OrderedMap.nodup_keys_insert hm) h List.nodup_nil

/-- **A cell holds what the data say** under its label, if they say one thing. -/
theorem get?_labelled (h : labelled entries = .ok m) {label : String} {data : Value}
    (hmem : ∃ x ∈ entries, keyLabel? x.1 = some label)
    (honly : ∀ x ∈ entries, keyLabel? x.1 = some label → cellOfWire x.2 = data) :
    m.get? label = some data := by
  have hlast := labelled_induction
    (motive := fun rest m => (∀ x ∈ rest, keyLabel? x.1 = some label → cellOfWire x.2 = data) ∧
      (m.get? label = some data ∨ ∃ x ∈ rest, keyLabel? x.1 = some label))
    (fun key v rest m label' hkey ⟨hrest, hm⟩ => ?_) h ⟨honly, Or.inr hmem⟩
  · exact hlast.2.resolve_right (by simp)
  · refine ⟨fun x hx => hrest x (List.mem_cons_of_mem _ hx), ?_⟩
    by_cases hl : label' = label
    · subst hl
      exact Or.inl (hrest _ List.mem_cons_self hkey ▸ OrderedMap.get?_insert_self _ _ _)
    · rw [OrderedMap.get?_insert_of_ne (Ne.symm hl)]
      refine hm.imp_right ?_
      rintro ⟨x, hx, hxl⟩
      refine ⟨x, (List.mem_cons.mp hx).resolve_left ?_, hxl⟩
      rintro rfl
      exact hl (Option.some.inj (hkey.symm.trans hxl))

/-! ### Sheets -/

variable {data : Value} {s : Sheet}

/-- The cells of a sheet that is read from data are the data of its cells. -/
theorem labelled_of_ofWire (h : ofWire (.map entries) = .ok s) {cells : List (Scalar × Value)}
    (hcells : Value.field? entries "cells" = some (.map cells)) :
    labelled cells = .ok (s.cells.map fun x => (x.1, Value.scalar x.2)) := by
  obtain ⟨_, he, hwire, -⟩ := ofWire_eq_ok.mp h
  obtain rfl := Value.map.inj he
  rw [hcells] at hwire
  unfold cellsOfWire at hwire
  dsimp only at hwire
  split at hwire
  · next m hm => rw [hm, scalarCells_eq_iff.mp hwire]
  · cases (Prod.mk.inj hwire).2

/-- **A sheet that is read keeps no label twice.** -/
theorem nodup_of_ofWire (h : ofWire data = .ok s) : s.cells.keys.Nodup := by
  obtain ⟨entries, rfl, hwire, -⟩ := ofWire_eq_ok.mp h
  cases hcells : Value.field? entries "cells" with
  | none =>
    rw [hcells] at hwire
    exact (Prod.mk.inj hwire).1 ▸ List.nodup_nil
  | some cells =>
    cases cells with
    | map cells =>
      have hkeys := nodup_labelled (labelled_of_ofWire h hcells)
      rwa [OrderedMap.keys_map] at hkeys
    | scalar | list => rw [hcells] at hwire; cases (Prod.mk.inj hwire).2

end Sheet

/-- What sessions read of cells among which no label is listed twice. -/
theorem Source.cell_ofCells {α : Type} [Content α] {cells : OrderedMap String α}
    (h : cells.keys.Nodup) (label : String) :
    (ofCells cells).cell label = (cells.get? label).getD Content.empty := by
  have hpairwise : cells.Pairwise fun x y => (x.1 == y.1) = false := by
    refine (List.pairwise_map.mp h).imp fun hne => ?_
    exact beq_false_of_ne hne
  cases hget : cells.get? label with
  | some v => exact cell_ofCells_of_mem hpairwise ((OrderedMap.get?_eq_some_iff h).mp hget)
  | none =>
    have hcell : (ofCells cells).cell label =
        ((Std.HashMap.ofList cells)[label]?).getD Content.empty := rfl
    have hnone : (Std.HashMap.ofList cells)[label]? = none := by
      refine Option.eq_none_iff_forall_ne_some.mpr fun v hv => ?_
      rw [Std.HashMap.ofList_eq_insertMany_empty] at hv
      have hmem := (mem_of_insertMany hv).resolve_right (by simp)
      exact OrderedMap.get?_eq_none_iff.mp hget (OrderedMap.mem_keys.mpr ⟨v, hmem⟩)
    rw [hcell, hnone]

/-- What sessions read in a sheet that keeps no label twice is what it holds. -/
theorem Sheet.source_cell_eq {s : Sheet} (h : s.cells.keys.Nodup) (label : String) :
    s.source.cell label = (s.cells.get? label).getD .null :=
  Source.cell_ofCells h label

end Spreadsheet
