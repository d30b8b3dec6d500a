import Spreadsheet.Proofs.Session.Grids
import Spreadsheet.Proofs.Sheet.Obtained

/-! # Labels of one position

A row number is written with zeros before it or without, and in the digits of any script, so a
position of the grid has many labels. Each names a range of that one cell, but a cell is kept and
read under the label as it is written, up to case and blanks. So labels of one position name one
cell only if their row numbers are written alike, and a cell is in a range and shown in a grid only
if its row number is written plainly (`set_at_position`). -/

namespace Spreadsheet

open Session (after answerGrid read readRange)

/-- The row number of the label is written as in the label of the position: in ASCII digits, without
zeros before it. -/
def Label.PlainRow (s : String) (p : Position) : Prop :=
  Label.rowNumeral s = (toString (p.row + 1)).toList

namespace Scalar

theorem literalValue_eq_null {v : Scalar} : v.literalValue = .null ↔ v = .null := by
  cases v with
  | text s =>
    unfold literalValue
    dsimp only
    split
    · split <;> simp
    · simp
  | _ => simp [literalValue]

theorem ne_null_of_entered {v w : Scalar} (h : v.entered? = some w) : w ≠ .null := by
  cases v with
  | null => cases h
  | bool | number => exact Option.some.inj h ▸ by simp
  | text s =>
    have htext : (if s.isEmpty then none else some (text s).trimFormula) = some w := h
    split_ifs at htext
    rw [← Option.some.inj htext, trimFormula]
    split <;> simp

end Scalar

theorem pureResult_map {m : Type → Type} [Monad m] [LawfulMonad m] {α β : Type} (f : α → β)
    (r : Except Fault α) : (pureResult (f <$> r) : ExceptT Fault m β) = f <$> pureResult r := by
  refine ExceptT.ext ?_
  cases r with
  | ok a => simp [pureResult]
  | error e => simp [pureResult]

/-- A range of one cell reads that cell. -/
theorem Expr.evaluate_range_single {m : Type → Type} [Monad m] [LawfulMonad m]
    {read : String → ExceptT Fault m Value} {start stop label : String}
    (h : Range.labels (start ++ ":" ++ stop) = .ok [label]) :
    (Expr.range start stop).evaluate read = do
      let v ← read label
      return .list [← pureResult (numberIn v)] := by
  rw [Expr.evaluate, Expr.readRange, h, pureResult_ok_bind]
  simp [pureResult_map]

namespace Session

/-- A session reads a cell under the label that it is kept under. -/
theorem read_congr {γ : Type} [Content γ] {src : Source γ} {l m : String}
    (h : Label.normalize l = Label.normalize m) : read src l = read src m := by
  unfold read look
  rw [h]

end Session

namespace Sheet

variable {s t : Sheet} {l₁ l₂ : String} {p : Position} {v w : Scalar}

/-- A write in the grid that leaves its cell not empty. -/
theorem set_entered (h : Label.position l₁ = .ok p) (hrow : p.row < s.rows)
    (hcolumn : p.column < s.cols) (hv : v.entered? = some w) :
    s.set l₁ v = .ok { s with cells := s.cells.insert (Label.normalize l₁) w } :=
  set_eq_ok_iff.mpr ⟨p, h, hrow, hcolumn, by rw [hv, Option.elim_some]⟩

/-- What is written under a label is what sessions read there. -/
theorem source_cell_insert (hkeys : s.cells.keys.Nodup) (key : String) (w : Scalar) :
    (Sheet.source { s with cells := s.cells.insert key w }).cell key = w := by
  rw [source_cell_eq (OrderedMap.nodup_keys_insert hkeys), OrderedMap.get?_insert_self,
    Option.getD_some]

/-- **What a write at a position comes to** for labels of that position. Under a label whose row
number is written as in the write, the cell is found; under any other, what was there before. A
formula reads a cell as it reads the range of that one cell if its row number is written plainly;
and a literal that is written under such a label is shown in every grid. -/
structure Written (s t : Sheet) (l₁ l₂ : String) (p : Position) (w : Scalar) : Prop where
  found : Label.rowNumeral l₂ = Label.rowNumeral l₁ → t.get l₂ = w
  kept : Label.rowNumeral l₂ ≠ Label.rowNumeral l₁ → t.get l₂ = s.get l₂
  asked : Label.rowNumeral l₂ = Label.rowNumeral l₁ → read t.source l₂ = read t.source l₁
  ranged : Label.PlainRow l₂ p → readRange t.source l₂ l₂ = do return [← read t.source l₂]
  referred : Label.PlainRow l₂ p → (Expr.range l₂ l₂).evaluate (Session.cellReader t.source) = do
    let v ← (Expr.cell l₂).evaluate (Session.cellReader t.source)
    return .list [← pureResult (Expr.numberIn v)]
  shown : Label.PlainRow l₁ p → w.isFormula = false → ∀ requests marker shown,
    answerGrid t marker (after t requests) = .ok shown → shownAt? shown p = some w.literalValue

/-- **A write at a position**, on every sheet that keeps no label twice. -/
theorem set_at_position (hkeys : s.cells.keys.Nodup) (h₁ : Label.position l₁ = .ok p)
    (h₂ : Label.position l₂ = .ok p) (hrow : p.row < s.rows) (hcolumn : p.column < s.cols)
    (hv : v.entered? = some w) : ∃ t, s.set l₁ v = .ok t ∧ Written s t l₁ l₂ p w ∧
      (t.NumeralsFit → ∀ requests marker, ∃ shown,
        answerGrid t marker (after t requests) = .ok shown) := by
  have hset := set_entered (s := s) h₁ hrow hcolumn hv
  have hplain : Label.normalize p.label = p.label := (Label.plain_label p).normalize
  have hread (src : Source) (h : Label.PlainRow l₂ p) : read src p.label = read src l₂ := by
    rw [← (Label.normalize_eq_label_iff h₂).mpr h] at hplain ⊢
    exact Session.read_congr hplain
  have hcell (src : Source) (h : Label.PlainRow l₂ p) :
      Session.cellReader src p.label = Session.cellReader src l₂ := by
    rw [Session.cellReader, hread src h, Session.cellReader]
  refine ⟨_, hset, ⟨fun h => ?_, fun h => ?_, fun h => ?_, fun h => ?_, fun h => ?_,
    fun h hw requests marker shown hshown => ?_⟩,
    fun hfit requests marker => Session.answerGrid_succeeds hfit marker _⟩
  · rw [Sheet.get, (Label.normalize_eq_normalize_iff h₂ h₁).mpr h, OrderedMap.get?_insert_self,
      Option.getD_some]
  · have hne := mt (Label.normalize_eq_normalize_iff h₂ h₁).mp h
    rw [Sheet.get, OrderedMap.get?_insert_of_ne hne, Sheet.get]
  · exact Session.read_congr ((Label.normalize_eq_normalize_iff h₂ h₁).mpr h)
  · rw [readRange, Session.readRangeBy, Label.labels_of_position h₂, Expr.pureResult_ok_bind,
      List.mapM_cons, hread _ h]
    simp
  · rw [Expr.evaluate_range_single (Label.labels_of_position h₂), hcell _ h, Expr.evaluate]
  · have hlabel : p.label = Label.normalize l₁ := ((Label.normalize_eq_label_iff h₁).mpr h).symm
    have hcell := source_cell_insert hkeys (Label.normalize l₁) w
    rw [← hlabel] at hcell hshown
    have hform : ¬ (Sheet.source { s with cells := s.cells.insert p.label w }).HasFormula
        p.label := by
      unfold Source.HasFormula
      rw [hcell, Content.isFormula_scalar, hw]
      exact Bool.false_ne_true
    rw [Session.entry_of_literal hshown hrow hcolumn hform, hcell, Scalar.shownLiteral,
      if_neg (mt Scalar.literalValue_eq_null.mp (Scalar.ne_null_of_entered hv))]

/-! ### A padded row number -/

theorem set_at_position_small : (small []).cells.keys.Nodup ∧
    Label.position " a1" = .ok ⟨0, 0⟩ ∧ Label.position "A1" = .ok ⟨0, 0⟩ ∧
      (Scalar.int 5).entered? = some (.int 5) ∧
        (small []).set " a1" (.int 5) = .ok (small [("A1", .int 5)]) ∧
          Written (small []) (small [("A1", .int 5)]) " a1" "A1" ⟨0, 0⟩ (.int 5) := by
  have h₁ : Label.position " a1" = .ok ⟨0, 0⟩ := rfl
  have h₂ : Label.position "A1" = .ok ⟨0, 0⟩ := rfl
  have hset : (small []).set " a1" (.int 5) = .ok (small [("A1", .int 5)]) := rfl
  obtain ⟨t, ht, hwritten, -⟩ := set_at_position (s := small []) (v := .int 5) List.nodup_nil h₁ h₂
    (show 0 < 3 by decide) (show 0 < 3 by decide) rfl
  obtain rfl := Except.ok.inj (hset.symm.trans ht)
  exact ⟨List.nodup_nil, h₁, h₂, rfl, hset, hwritten⟩

/-- **A cell is not found** under another label of its position, if the row number is padded. -/
theorem not_found_padded : ¬ ∀ (s : Sheet) (l₁ l₂ : String) (p : Position) (v w : Scalar)
    (t : Sheet), Label.position l₁ = .ok p → Label.position l₂ = .ok p → p.row < s.rows →
      p.column < s.cols → v.entered? = some w → s.set l₁ v = .ok t → t.get l₂ = w := by
  intro h
  have hfound := h (small []) "A01" "A1" ⟨0, 0⟩ (.int 5) (.int 5) (small [("A01", .int 5)]) rfl rfl
    (by decide) (by decide) rfl rfl
  exact absurd hfound (by decide)

end Sheet

end Spreadsheet
