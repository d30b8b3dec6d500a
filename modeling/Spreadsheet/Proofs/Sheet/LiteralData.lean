import Spreadsheet.Proofs.Session.Failures
import Spreadsheet.Proofs.Session.Grids
import Spreadsheet.Proofs.Sheet.Loading

/-! # Literals in the data of a sheet

A scalar that the data of a sheet hold as a literal, under `v`, never becomes a formula, whatever
text it is: it is kept with an apostrophe where it would be taken for one, and read, shown and
written without it (`ofWire_readsBack`). Other cells matter only in that a numeral that is too long
keeps a session from giving a grid at all (`not_shown_beside`). -/

namespace Spreadsheet

open Session (LiteralsKept after answer answerGrid)

namespace Scalar

theorem quoteLiteral_eq_null {v : Scalar} : v.quoteLiteral = .null ↔ v = .null := by
  cases v with
  | text s =>
    unfold quoteLiteral
    dsimp only
    split <;> simp
  | _ => simp [quoteLiteral]

/-- A grid shows a quoted literal as it is, but nothing as the empty text. -/
theorem shownLiteral_quoteLiteral (v : Scalar) :
    v.quoteLiteral.shownLiteral = if v = .null then .text "" else v := by
  rw [shownLiteral, literalValue_quoteLiteral]

end Scalar

namespace Sheet

/-! ### Data of cells -/

/-- The data of a cell hold the literal `v` and no formula. -/
def HoldsLiteral (cell : List (Scalar × Value)) (v : Scalar) : Prop :=
  Value.field? cell "v" = some (.scalar v) ∧
    ∀ f, Value.field? cell "f" = some f → f.isFormula = false

/-- The data of a sheet hold the map `cell` for the cell at a label, under the only key for it. -/
def HoldsCell (data : Value) (label : String) (cell : List (Scalar × Value)) : Prop :=
  ∃ entries cells key, data = .map entries ∧ Value.field? entries "cells" = some (.map cells) ∧
    (key, .map cell) ∈ cells ∧ keyLabel? key = some (Label.normalize label) ∧
    ∀ x ∈ cells, keyLabel? x.1 = some (Label.normalize label) → x = (key, .map cell)

/-- What the data of a sheet hold for the cell with the given key. -/
def cellData? : Value → String → Option Value
  | .map entries, key =>
    match Value.field? entries "cells" with
    | some (.map cells) => Value.field? cells key
    | _ => none
  | _, _ => none

variable {data : Value} {label : String} {cell : List (Scalar × Value)} {v : Scalar} {s : Sheet}

theorem HoldsLiteral.cellOfWire (h : HoldsLiteral cell v) :
    cellOfWire (.map cell) = .scalar v.quoteLiteral := by
  obtain ⟨hv, hf⟩ := h
  unfold Sheet.cellOfWire
  dsimp only
  rw [hv]
  split
  · next f hfield =>
    rw [if_neg (show ¬ f.isFormula = true from Bool.eq_false_iff.mp (hf _ hfield))]
    rfl
  · rfl

/-- The cell of a literal is kept with the literal quoted. -/
theorem HoldsCell.get? (hcell : HoldsCell data label cell) (hv : HoldsLiteral cell v)
    (hs : ofWire data = .ok s) : s.cells.get? (Label.normalize label) = some v.quoteLiteral := by
  obtain ⟨entries, cells, key, rfl, hcells, hmem, hkey, honly⟩ := hcell
  have hdata : OrderedMap.get? (s.cells.map fun x => (x.1, Value.scalar x.2))
      (Label.normalize label) = some (.scalar v.quoteLiteral) :=
    get?_labelled (labelled_of_ofWire hs hcells) ⟨_, hmem, hkey⟩ fun x hx hl => by
      rw [honly x hx hl]
      exact hv.cellOfWire
  rw [OrderedMap.get?_map, Option.map_eq_some_iff] at hdata
  obtain ⟨w, hw, hwv⟩ := hdata
  rw [hw, Value.scalar.inj hwv]

theorem cellToWire_quoteLiteral (v : Scalar) :
    cellToWire v.quoteLiteral = .ofFields [("v", .scalar v)] := by
  rw [cellToWire, v.isFormula_quoteLiteral, v.literalValue_quoteLiteral]
  rfl

/-- A sheet is written with the data of each of its cells. -/
theorem cellData?_toWire (s : Sheet) (key : String) :
    cellData? s.toWire key = (s.cells.get? key).map cellToWire := by
  have hcells : Value.field? ([("name", .text s.name), ("rows", .int s.rows), ("cols", .int s.cols),
      ("cells", .ofFields (s.cells.map fun x => (x.1, cellToWire x.2)))].map
        fun x => (.text x.1, x.2)) "cells" =
      some (.ofFields (s.cells.map fun x => (x.1, cellToWire x.2))) := by
    rw [Value.field?_ofFields]
    rfl
  rw [← OrderedMap.get?_map, OrderedMap.get?, ← Value.field?_ofFields]
  simp only [cellData?, toWire, Value.ofFields]
  rw [Value.ofFields] at hcells
  rw [hcells]

/-! ### Literals read back -/

/-- **A literal reads back** from a sheet in all ways: it is kept as no formula; every session gives
it, nothing as 0, and records no failure of it; every grid shows it, nothing as the empty text; and
the sheet is written with it. -/
structure ReadsBack (s : Sheet) (label : String) (v : Scalar) : Prop where
  kept : ∃ w, s.cells.get? (Label.normalize label) = some w ∧ w.isFormula = false
  asked : ∀ requests, answer s (after s requests) label = .ok (if v = .null then .int 0 else v)
  sound : ∀ requests, (after s requests).errors.get? (Label.normalize label) = none
  shown : ∀ requests marker shown (p : Position),
    answerGrid s marker (after s requests) = .ok shown → p.row < s.rows → p.column < s.cols →
      p.label = Label.normalize label → shownAt? shown p = some (if v = .null then .text "" else v)
  written : cellData? s.toWire (Label.normalize label) = some (.ofFields [("v", .scalar v)])

/-- **Literals of data read back as themselves**, whatever text they are. The other cells may keep a
session from giving a grid, but only by a numeral that is too long. -/
theorem ofWire_readsBack (hcell : HoldsCell data label cell) (hv : HoldsLiteral cell v)
    (hs : ofWire data = .ok s) : ReadsBack s label v ∧
      (∀ requests marker f, answerGrid s marker (after s requests) = .error f →
        Label.IsLongNumeral f) ∧
      (s.NumeralsFit → ∀ requests marker, ∃ shown,
        answerGrid s marker (after s requests) = .ok shown) := by
  have hget := hcell.get? hv hs
  have hsource : s.source.cell (Label.normalize label) = v.quoteLiteral := by
    rw [source_cell_eq (nodup_of_ofWire hs), hget, Option.getD_some]
  have hform : ¬ s.source.HasFormula (Label.normalize label) := by
    unfold Source.HasFormula
    rw [hsource, Content.isFormula_scalar, v.isFormula_quoteLiteral]
    exact Bool.false_ne_true
  have hliteral : s.source.literal (Label.normalize label) = if v = .null then .int 0 else v := by
    simp only [Source.literal, Content.reading_scalar, hsource, Scalar.quoteLiteral_eq_null,
      v.literalValue_quoteLiteral]
  refine ⟨⟨⟨_, hget, v.isFormula_quoteLiteral⟩, fun requests => ?_, fun requests => ?_,
    fun requests marker shown p hshown hrow hcolumn hp => ?_, ?_⟩,
    fun requests marker f hf => Session.answerGrid_fault hf,
    fun hfit requests marker => Session.answerGrid_succeeds hfit marker _⟩
  · rw [Session.answer_literal requests hform, hliteral]
  · exact Option.eq_none_iff_forall_ne_some.mpr fun e he =>
      hform ((Session.after_literalsKept s.source _ _ requests).errors _ e he)
  · rw [Session.entry_of_literal hshown hrow hcolumn (hp ▸ hform), hp, hsource,
      v.shownLiteral_quoteLiteral]
  · rw [cellData?_toWire, hget, Option.map_some, cellToWire_quoteLiteral]

/-- The data of a sheet with a formula and, under an unusual key, a text that looks like a quoted
one. -/
def quotedData : Value :=
  .ofFields [("name", .text "Sheet"), ("rows", .int 3), ("cols", .int 3), ("cells", .ofFields [
    ("A1", .ofFields [("f", .text " =B1 ")]),
    (" b1", .ofFields [("f", .text "none"), ("v", .text "'=1")])])]

/-- The sheet that they describe. -/
def quotedSheet : Sheet :=
  .small [("A1", .text "=B1"), ("B1", .text "''=1")]

theorem ofWire_readsBack_quoted : ofWire quotedData = .ok quotedSheet ∧
    ReadsBack quotedSheet "B1" (.text "'=1") ∧
      ∀ requests marker, ∃ shown,
        answerGrid quotedSheet marker (after quotedSheet requests) = .ok shown := by
  have hs : ofWire quotedData = .ok quotedSheet := by rfl
  have hcell : HoldsCell quotedData "B1" [(.text "f", .text "none"), (.text "v", .text "'=1")] := by
    refine ⟨_, _, .text " b1", rfl, rfl, List.mem_cons_of_mem _ List.mem_cons_self, by decide, ?_⟩
    have hother : keyLabel? (.text "A1") ≠ some (Label.normalize "B1") := by decide
    rintro x (_ | ⟨_, _ | ⟨_, hx⟩⟩) hl
    · exact absurd hl hother
    · rfl
    · cases hx
  have hv : HoldsLiteral [(.text "f", .text "none"), (.text "v", .text "'=1")] (.text "'=1") := by
    refine ⟨rfl, fun f hf => ?_⟩
    obtain rfl : Value.text "none" = f := Option.some.inj hf
    decide
  have hfit : quotedSheet.NumeralsFit := Sheet.numeralsFit_of_short (by decide)
  obtain ⟨hback, -, hgrid⟩ := ofWire_readsBack hcell hv hs
  exact ⟨hs, hback, hgrid hfit⟩

/-! ### Beside a numeral that is too long -/

/-- No grid is given of a sheet whose only formula is in it and has dependencies that cannot be
told. -/
theorem answerGrid_ne_ok {p : Position} (hrow : p.row < s.rows) (hcolumn : p.column < s.cols)
    (honly : ∀ l, s.source.HasFormula l ↔ l = p.label) {f : Fault}
    (hdeps : Session.dependencies (Session.formulaAt s.source p.label) = .error f)
    (marker : String) (shown : List (List Scalar)) : answerGrid s marker {} ≠ .ok shown := by
  intro h
  have hnormal := (Label.plain_label p).normalize
  have hentry {label : String} {u w : Session.State} {v : Scalar}
      (hu : Session.isSettled s.source u p.label = false)
      (hv : Session.Gives (Session.gridEntry s.source marker label) u (.ok v) w) :
      Session.isSettled s.source w p.label = false ∧ label ≠ p.label := by
    obtain ⟨value, hvalue, -⟩ := hv.of_gridEntry
    by_cases hform : s.source.HasFormula label
    · rw [Session.shownValue_of_formula _ hform] at hvalue
      obtain rfl := (honly label).mp hform
      rw [← hnormal] at hu hform hdeps
      obtain ⟨w', hw'⟩ :=
        Session.gives_read_error hu (mem_formulas_of_hasFormula hform) hdeps
      cases (Prod.mk.inj (hvalue.symm.trans hw')).1
    · rw [Session.shownValue_of_literal _ hform] at hvalue
      obtain ⟨-, rfl⟩ := Prod.mk.inj hvalue
      exact ⟨hu, fun hl => hform ((honly label).mpr hl)⟩
  have hstart : Session.isSettled s.source {} p.label = false :=
    Session.isSettled_eq_false_iff.mpr ⟨(honly _).mpr rfl, by simp, by simp⟩
  obtain ⟨-, hentries⟩ := Session.entries_of_gives_grid hentry hstart (Prod.ext h rfl)
  obtain ⟨v, -, hne⟩ := hentries p hrow hcolumn
  exact hne rfl

/-- A numeral of the given number of digits as a formula. -/
def longNumeral (digits : Nat) : String :=
  String.ofList ('=' :: List.replicate digits '1')

/-- The data of a sheet with a literal in A1 and a numeral of the given number of digits in B1. -/
def besideData (digits : Nat) : Value :=
  .ofFields [("name", .text "Sheet"), ("rows", .int 3), ("cols", .int 3), ("cells", .ofFields [
    ("A1", .ofFields [("v", .int 1)]), ("B1", .text (longNumeral digits))])]

/-- The sheet that they describe. -/
def besideSheet (digits : Nat) : Sheet :=
  .small [("A1", .int 1), ("B1", .text (longNumeral digits))]

theorem answerGrid_beside {digits : Nat} (h : numeralLimit < digits) (marker : String)
    (shown : List (List Scalar)) : answerGrid (besideSheet digits) marker {} ≠ .ok shown := by
  have hB : (Position.mk 0 1).label = "B1" := Label.label_of_column_lt (by decide)
  have htext : (Scalar.text (longNumeral digits)).isFormula = true := by
    simp [longNumeral, Scalar.isFormula, Text.isBlank]
  obtain ⟨hform, hat⟩ := formula_of_mem (s := besideSheet digits) (l := "B1")
    (by simp [besideSheet, small]) (List.mem_cons_of_mem _ List.mem_cons_self) htext
  have htree : Formula.ofText (longNumeral digits) = .error (.numeralTooLong digits) := by
    rw [longNumeral, Formula.ofText_digits (fun d hd => List.eq_of_mem_replicate hd ▸ by decide)
      (by simpa using h), List.length_replicate]
  have honly (l : String) : (besideSheet digits).source.HasFormula l ↔ l = "B1" := by
    refine ⟨fun hl => ?_, fun hl => hl ▸ hform⟩
    have hone : (Scalar.int 1).isFormula = false := rfl
    have hformulas : (besideSheet digits).formulas = ["B1"] := by
      simp [formulas, besideSheet, small, htext, hone]
    exact List.mem_singleton.mp (hformulas ▸ mem_formulas_of_hasFormula hl)
  have hdeps : Session.dependencies (Session.formulaAt (besideSheet digits).source "B1") =
      .error (.numeralTooLong digits) := by
    rw [hat, Session.dependencies, htree]
  rw [← hB] at honly hdeps
  exact answerGrid_ne_ok (show 0 < 3 by decide) (show 1 < 3 by decide) honly hdeps marker shown

/-- **No grid shows a literal** beside a numeral that is too long. -/
theorem not_shown_beside : ¬ ∀ data label cell v s, HoldsCell data label cell →
    HoldsLiteral cell v → ofWire data = .ok s → ∀ p : Position, p.row < s.rows →
      p.column < s.cols → p.label = Label.normalize label →
        ∃ shown, answerGrid s defaultMarker {} = .ok shown ∧
          shownAt? shown p = some (if v = .null then .text "" else v) := by
  intro h
  have hs : ofWire (besideData 4301) = .ok (besideSheet 4301) := rfl
  have hcell : HoldsCell (besideData 4301) "A1" [(.text "v", .int 1)] := by
    refine ⟨_, _, .text "A1", rfl, rfl, List.mem_cons_self, by decide, ?_⟩
    have hother : keyLabel? (.text "B1") ≠ some (Label.normalize "A1") := by decide
    rintro x (_ | ⟨_, _ | ⟨_, hx⟩⟩) hl
    · rfl
    · exact absurd hl hother
    · cases hx
  have hv : HoldsLiteral [(.text "v", .int 1)] (.int 1) := ⟨rfl, fun f hf => by cases hf⟩
  have hA : (Position.mk 0 0).label = Label.normalize "A1" :=
    (Label.label_of_column_lt (by decide)).trans (by decide)
  obtain ⟨shown, hshown, -⟩ :=
    h _ "A1" _ _ _ hcell hv hs ⟨0, 0⟩ (by decide) (by decide) hA
  exact answerGrid_beside (by decide) defaultMarker shown hshown

end Sheet

end Spreadsheet
