import Spreadsheet.Proofs.Session.Trimmed
import Spreadsheet.Proofs.Sheet.Obtained

/-! # Sheets written as data and read again

Each way in which a sheet is obtained keeps formulas in its own form: as they stand in the data, or
without the blanks around them. Written as data and read again, any sheet comes back with its
formulas without blanks and all else as it was (`ofWire_toWire`). From then on it comes back as it
is, and sessions do the same over it as over the sheet that was written (`reload_obtained`). -/

namespace Spreadsheet

namespace Scalar

theorem isEscaped_of_head {s : String} (h : ∀ rest, s.toList ≠ '\'' :: rest) :
    (text s).isEscaped = (text s).isFormula := by
  have hdrop : s.toList.dropWhile (· = '\'') = s.toList := by
    cases hs : s.toList with
    | nil => rfl
    | cons c rest =>
      have hc : c ≠ '\'' := fun hc => h rest (hc ▸ hs)
      exact List.dropWhile_cons_of_neg (by simpa using hc)
  rw [isEscaped, hdrop, String.ofList_toList]

/-- **A literal is quoted as it was** when it has been read. -/
theorem quoteLiteral_literalValue {v : Scalar} (h : v.isFormula = false) :
    v.literalValue.quoteLiteral = v := by
  cases v with
  | text s =>
    unfold literalValue
    dsimp only
    split
    · next rest hs =>
      have hquoted : s = "'" ++ String.ofList rest := by
        simp [← String.toList_inj, hs]
      by_cases hescaped : (text s).isEscaped = true
      · have hrest : (text (String.ofList rest)).isEscaped = true := by
          rw [← isEscaped_cons, ← hquoted, hescaped]
        rw [if_pos hescaped, quoteLiteral, if_pos hrest, ← hquoted]
      · rw [if_neg hescaped, quoteLiteral, if_neg hescaped]
    · next hs =>
      rw [quoteLiteral, isEscaped_of_head hs, h]
      rfl
  | _ => rfl

end Scalar

namespace Sheet

/-! ### One cell -/

/-- **A cell is read as it was written**, a formula without the blanks around it. -/
theorem cellOfWire_cellToWire (v : Scalar) : cellOfWire (cellToWire v) = .scalar v.trimFormula := by
  unfold cellToWire
  by_cases h : v.isFormula = true
  · have hf : Value.field? [(.text "f", .scalar v)] "f" = some (.scalar v) := rfl
    rw [if_pos h]
    simp only [Value.ofFields, List.map_cons, List.map_nil, cellOfWire, hf, h, if_true]
  · have hf : Value.field? [(.text "v", .scalar v.literalValue)] "f" = none := rfl
    have hv : Value.field? [(.text "v", .scalar v.literalValue)] "v" =
        some (.scalar v.literalValue) := rfl
    have hliteral : v.isFormula = false := Bool.eq_false_iff.mpr h
    rw [if_neg h]
    simp only [Value.ofFields, List.map_cons, List.map_nil, cellOfWire, hf, hv, literalOfWire,
      Scalar.quoteLiteral_literalValue hliteral, Scalar.trimFormula_of_not_formula hliteral]

/-! ### All cells -/

theorem keyLabel?_of_isKey {k : String} (h : Label.IsKey k) : keyLabel? (.text k) = some k := by
  rw [keyLabel?, h.normalize, if_pos h.isLabel]

/-- Cells under labels of their own are entered as they stand. -/
theorem labelled_of_keys {cells : OrderedMap String Value} (hkeys : ∀ k ∈ cells.keys, Label.IsKey k)
    (hnodup : cells.keys.Nodup) : labelled (cells.map fun x => (.text x.1, x.2)) =
      .ok (cells.map fun x => (x.1, cellOfWire x.2)) := by
  induction cells using List.reverseRecOn with
  | nil => rfl
  | append_singleton front x ih =>
    rw [OrderedMap.keys, List.map_append, List.map_cons, List.map_nil] at hkeys hnodup
    obtain ⟨hfront, -, hdisjoint⟩ := List.nodup_append.mp hnodup
    have hnew : x.1 ∉ OrderedMap.keys (front.map fun x => (x.1, cellOfWire x.2)) := fun hmem => by
      rw [OrderedMap.keys_map] at hmem
      exact hdisjoint _ hmem _ List.mem_cons_self rfl
    have hlast := keyLabel?_of_isKey (hkeys x.1 (by simp))
    have hentered := ih (fun k hk => hkeys k (List.mem_append_left _ hk)) hfront
    unfold labelled at hentered ⊢
    rw [List.map_append, List.foldlM_append, hentered]
    simp only [bind, Except.bind, List.map_cons, List.map_nil, List.foldlM_cons, List.foldlM_nil,
      hlast, pure, Except.pure, OrderedMap.insert_of_not_mem hnew, List.map_append]

theorem size?_int {n : Nat} (h : 0 < n) : size? (some (.int n)) = some ⟨n, h⟩ := by
  obtain ⟨n, rfl⟩ := Nat.exists_eq_succ_of_ne_zero h.ne'
  rfl

/-- The sheet with its formulas without the blanks around them. -/
def trimmed (s : Sheet) : Sheet :=
  { s with cells := s.cells.map fun x => (x.1, x.2.trimFormula) }

variable {s : Sheet}

theorem keys_trimmed (s : Sheet) : s.trimmed.cells.keys = s.cells.keys :=
  OrderedMap.keys_map s.cells Scalar.trimFormula

theorem keyed_trimmed (h : s.Keyed) : s.trimmed.Keyed :=
  ⟨keys_trimmed s ▸ h.isKey, keys_trimmed s ▸ h.nodup⟩

theorem trimmed_trimmed (s : Sheet) : s.trimmed.trimmed = s.trimmed := by
  simp only [trimmed, List.map_map, Function.comp_def, Scalar.trimFormula_trimFormula]

/-- **A sheet that is written and read again** has its formulas without blanks around them, and is
otherwise the same. -/
theorem ofWire_toWire (h : s.Keyed) : ofWire s.toWire = .ok s.trimmed := by
  refine ofWire_eq_ok.mpr ⟨_, rfl, ?_, ?_, ?_, ?_⟩
  · have hkeys := OrderedMap.keys_map s.cells cellToWire
    have hcells := labelled_of_keys (hkeys ▸ h.isKey) (hkeys ▸ h.nodup)
    rw [Value.field?_ofFields]
    simp only [List.lookup_cons, String.reduceBEq, cellsOfWire, Value.ofFields, hcells]
    rw [scalarCells_eq_iff]
    simp only [trimmed, List.map_map, Function.comp_def, cellOfWire_cellToWire]
  · rw [Value.field?_ofFields]
    rfl
  · rw [Value.field?_ofFields]
    exact size?_int s.rows_pos
  · rw [Value.field?_ofFields]
    exact size?_int s.cols_pos

/-! ### Sessions -/

/-- Sessions over both sheets are over the same but for the blanks around formulas. -/
theorem Keyed.trims (h : s.Keyed) : s.source.Trims s.trimmed.source where
  cell l := by
    rw [source_cell_eq (keyed_trimmed h).nodup, source_cell_eq h.nodup, trimmed,
      OrderedMap.get?_map]
    cases s.cells.get? l <;> rfl
  formulas := by
    show s.trimmed.formulas = s.formulas
    simp only [formulas, trimmed, List.filter_map, Function.comp_def, List.map_map,
      Scalar.isFormula_trimFormula]

/-- **A sheet comes back** as another one: with the same name, grid and labels, literals as they are
and formulas without the blanks around them. It comes back from its own data as it is, and requests
to a session over it are answered as over the other one, with the same failures. -/
structure ComesBack (s r : Sheet) : Prop where
  name : r.name = s.name
  rows : r.rows = s.rows
  cols : r.cols = s.cols
  labels : r.cells.keys = s.cells.keys
  cells : List.Forall₂ (fun x y => (x.2.isFormula = false → y.2 = x.2) ∧
    ∀ f, x.2 = .text f → x.2.isFormula = true → y.2 = .text (Text.trim f)) s.cells r.cells
  again : ofWire r.toWire = .ok r
  answers : ∀ requests, Session.transcript r requests {} = Session.transcript s requests {}

/-- **Every sheet comes back** from its data, however it has been obtained. -/
theorem reload_obtained (h : Obtained s) : ∃ r, ofWire s.toWire = .ok r ∧ ComesBack s r := by
  have hkeyed := h.keyed
  refine ⟨s.trimmed, ofWire_toWire hkeyed, rfl, rfl, rfl, keys_trimmed s, ?_, ?_, fun _ => ?_⟩
  · refine List.forall₂_map_right_iff.mpr (List.forall₂_same.mpr fun x _ => ⟨fun hx => ?_, ?_⟩)
    · exact Scalar.trimFormula_of_not_formula hx
    · rintro f hf hx
      rw [hf] at hx
      exact hf ▸ Scalar.trimFormula_of_formula hx
  · rw [ofWire_toWire (keyed_trimmed hkeyed), trimmed_trimmed]
  · rw [hkeyed.trims.transcript_eq rfl rfl]

/-- The data of a sheet with a formula among blanks, and a literal that looks like a quoted one. -/
def blankData : Value :=
  .ofFields [("name", .text "Sheet"), ("rows", .int 3), ("cols", .int 3), ("cells", .ofFields [
    ("a1", .text " =B1 "), ("A02", .ofFields [("v", .text "'=1")])])]

theorem reload_obtained_blanks :
    let loaded := small [("A1", .text " =B1 "), ("A02", .text "''=1")]
    let written := small [("A1", .text " =B1 "), ("A02", .text "''=1"), ("B1", .text "=A1")]
    let back := small [("A1", .text "=B1"), ("A02", .text "''=1"), ("B1", .text "=A1")]
    ofWire blankData = .ok loaded ∧ loaded.set " b1" (.text " =A1 ") = .ok written ∧
      ofWire written.toWire = .ok back ∧ ComesBack written back := by
  intro loaded written back
  have hloaded : ofWire blankData = .ok loaded := by rfl
  have hwritten : loaded.set " b1" (.text " =A1 ") = .ok written := by rfl
  have hback : ofWire written.toWire = .ok back := by rfl
  obtain ⟨r, hr, hcomes⟩ := reload_obtained (.set (.read hloaded) hwritten)
  obtain rfl := Except.ok.inj (hback.symm.trans hr)
  exact ⟨hloaded, hwritten, hback, hcomes⟩

end Sheet

end Spreadsheet
