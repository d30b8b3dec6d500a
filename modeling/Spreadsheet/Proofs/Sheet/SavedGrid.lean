import Spreadsheet.Proofs.Session.FormulaValues
import Spreadsheet.Proofs.Sheet.Entered
import Spreadsheet.Proofs.Sheet.LiteralData
import Spreadsheet.Proofs.Sheet.Reloading
import Spreadsheet.Proofs.Sheet.SamePosition

/-! # Grids of literals saved as they are shown

A grid shows a literal without the apostrophe that keeps its text from being a formula, and a grid
that is entered has formulas wherever a text looks like one. So a sheet of literals that is shown
and saved keeps all that does not wear such an apostrophe. It shows the same grid again if, and only
if, no literal wears one (`saved_grid_iff`): under one apostrophe a text becomes a formula, which
never comes to a text that looks like one, and under more it loses the first of them. -/

namespace Spreadsheet

namespace Scalar

variable {v w : Scalar}

/-! ### Literals as they are shown and entered -/

theorem literalValue_of_not_escaped (h : v.isEscaped = false) : v.literalValue = v := by
  cases v with
  | text s =>
    unfold literalValue
    dsimp only
    split
    · rw [h]
      rfl
    · rfl
  | _ => rfl

/-- A literal that looks like a formula under apostrophes wears one, which it is read without. -/
theorem exists_of_isEscaped (hf : v.isFormula = false) (he : v.isEscaped = true) :
    ∃ rest, v = text ("'" ++ rest) ∧ (text rest).isEscaped = true ∧ v.literalValue = text rest := by
  cases v with
  | text s =>
    cases hs : s.toList with
    | nil =>
      rw [isEscaped_of_head (fun rest h => by simp [hs] at h), hf] at he
      cases he
    | cons c rest =>
      by_cases hc : c = '\''
      · subst hc
        have hquoted : s = "'" ++ String.ofList rest := by
          simp [← String.toList_inj, hs]
        refine ⟨String.ofList rest, by rw [← hquoted], ?_, ?_⟩
        · rw [← isEscaped_cons, ← hquoted, he]
        · unfold literalValue
          dsimp only
          rw [hs]
          simp only [he, if_true]
      · rw [isEscaped_of_head (fun rest h => hc (List.cons.inj (hs.symm.trans h)).1), hf] at he
        cases he
  | _ => cases he

/-- Such a literal is read as another one. -/
theorem literalValue_ne (hf : v.isFormula = false) (he : v.isEscaped = true) :
    v.literalValue ≠ v := by
  obtain ⟨rest, rfl, -, hrest⟩ := exists_of_isEscaped hf he
  rw [hrest]
  intro h
  have hlength := congrArg String.length (Scalar.text.inj h)
  rw [String.length_append, show "'".length = 1 from rfl] at hlength
  omega

theorem isFormula_entered (h : v.entered? = some w) : w.isFormula = v.isFormula := by
  cases v with
  | null => cases h
  | bool | number => exact Option.some.inj h ▸ rfl
  | text s =>
    have htext : (if s.isEmpty then none else some (text s).trimFormula) = some w := h
    split_ifs at htext
    rw [← Option.some.inj htext, isFormula_trimFormula]

/-- What is entered is kept as it is, unless it is a formula. -/
theorem entered_of_not_formula (hf : v.isFormula = false) (h : v.entered? = some w) : w = v := by
  cases v with
  | null => cases h
  | bool | number => exact (Option.some.inj h).symm
  | text s =>
    have htext : (if s.isEmpty then none else some (text s).trimFormula) = some w := h
    split_ifs at htext
    rw [← Option.some.inj htext, trimFormula_of_not_formula hf]

theorem exists_entered_of_isFormula (h : v.isFormula = true) : ∃ w, v.entered? = some w := by
  cases v with
  | text s =>
    have hne : s.isEmpty = false := by
      refine Bool.eq_false_iff.mpr fun hs => ?_
      obtain rfl := String.isEmpty_iff.mp hs
      cases h
    exact ⟨(text s).trimFormula, by rw [entered?, hne]; rfl⟩
  | _ => cases h

theorem shownLiteral_of_isFormula (h : v.literalValue.isFormula = true) :
    v.shownLiteral = v.literalValue :=
  if_neg fun hnull => by rw [hnull] at h; cases h

theorem isFormula_shownLiteral : v.shownLiteral.isFormula = v.literalValue.isFormula := by
  unfold shownLiteral
  split_ifs with h
  · rw [h]
    rfl
  · rfl

/-- **A literal that wears no apostrophe is shown as before** when it has been entered as it is
shown. -/
theorem shownLiteral_entered (hf : v.isFormula = false) (he : v.isEscaped = false) :
    ((v.shownLiteral.entered?).getD .null).shownLiteral = v.shownLiteral := by
  have hshown : v.shownLiteral = if v = .null then .text "" else v := by
    rw [shownLiteral, literalValue_of_not_escaped he]
  rw [hshown]
  split_ifs with hnull
  · rfl
  · cases hw : v.entered? with
    | none =>
      cases v with
      | text s =>
        have htext : (if s.isEmpty then none else some (text s).trimFormula) = none := hw
        split_ifs at htext with hs
        rw [String.isEmpty_iff.mp hs]
        rfl
      | null => exact absurd rfl hnull
      | _ => cases hw
    | some w =>
      rw [entered_of_not_formula hf hw, Option.getD_some, hshown, if_neg hnull]

end Scalar

namespace Session

variable {α β : Type} {s : State}

/-- Computations that change nothing, one after the other. -/
theorem gives_mapM_still {f : α → Run β} {g : α → β} (hf : ∀ a, Gives (f a) s (.ok (g a)) s) :
    ∀ l : List α, Gives (l.mapM f) s (.ok (l.map g)) s
  | [] => gives_pure [] s
  | a :: l => by
    rw [List.mapM_cons]
    exact (hf a).bind ((gives_mapM_still hf l).bind (gives_pure _ s))

end Session

namespace Sheet

open Session

/-- **A sheet of literals**: each cell lies in the grid, is kept under the label of its position,
under no label twice, and holds no formula. -/
structure OfLiterals (s : Sheet) : Prop where
  nodup : s.cells.keys.Nodup
  literal : ∀ x ∈ s.cells, x.2.isFormula = false
  placed : ∀ x ∈ s.cells, ∃ p : Position, p.row < s.rows ∧ p.column < s.cols ∧ x.1 = p.label

/-- What a cell holds that is kept under the label; nothing if there is none. -/
def held (s : Sheet) (label : String) : Scalar :=
  (s.cells.get? label).getD .null

/-- The literals of a sheet as a grid. -/
def literalGrid (s : Sheet) : List (List Scalar) :=
  (List.range s.rows).map fun row =>
    (List.range s.cols).map fun column => (s.held (Position.mk row column).label).shownLiteral

variable {s : Sheet} {marker : String} {p : Position}

theorem shownAt?_literalGrid (hrow : p.row < s.rows) (hcolumn : p.column < s.cols) :
    shownAt? s.literalGrid p = some (s.held p.label).shownLiteral := by
  simp [shownAt?, literalGrid, hrow, hcolumn]

theorem held_of_mem (hnodup : s.cells.keys.Nodup) {x : String × Scalar} (hx : x ∈ s.cells) :
    s.held x.1 = x.2 := by
  rw [held, (OrderedMap.get?_eq_some_iff hnodup).mpr hx, Option.getD_some]

theorem held_cases (hnodup : s.cells.keys.Nodup) (label : String) :
    s.held label = .null ∨ (label, s.held label) ∈ s.cells := by
  unfold held
  cases h : s.cells.get? label with
  | none => exact Or.inl rfl
  | some v => exact Or.inr ((OrderedMap.get?_eq_some_iff hnodup).mp h)

theorem isFormula_held (hnodup : s.cells.keys.Nodup) (hs : ∀ x ∈ s.cells, x.2.isFormula = false)
    (label : String) : (s.held label).isFormula = false := by
  rcases held_cases hnodup label with h | h
  · rw [h]
    rfl
  · exact hs _ h

/-- **The grid of a sheet without formulas** shows its literals, whatever marks failed cells. -/
theorem grid_of_not_formula (hnodup : s.cells.keys.Nodup)
    (hs : ∀ x ∈ s.cells, x.2.isFormula = false) (marker : String) :
    s.grid marker = .ok s.literalGrid := by
  have hentry (label : String) :
      Gives (gridEntry s.source marker label) {} (.ok (s.held label).shownLiteral) {} := by
    have hcell : s.source.cell label = s.held label := source_cell_eq hnodup label
    have hform : ¬ s.source.HasFormula label := by
      rw [Source.HasFormula, hcell, Content.isFormula_scalar, isFormula_held hnodup hs label]
      exact Bool.false_ne_true
    have hvalue : Gives (shownValue s.source label) {} (.ok (s.held label).literalValue) {} := by
      rw [shownValue_of_literal _ hform, hcell]
      exact gives_pure _ _
    refine hvalue.bind ((gives_get _).bind ?_)
    simp only [Content.isNull_scalar, decide_eq_true_eq]
    exact gives_pure (s.held label).shownLiteral _
  have hgrid : Gives (Session.grid s.source marker s.rows s.cols) {} (.ok s.literalGrid) {} :=
    gives_mapM_still (fun row => gives_mapM_still (fun column => hentry _) _) _
  exact congrArg Prod.fst hgrid

/-! ### The sheet that is saved -/

/-- The sheet with the grid of its literals as its cells. -/
def saved (s : Sheet) : Sheet :=
  s.withGrid s.literalGrid

theorem nodup_saved (s : Sheet) : s.saved.cells.keys.Nodup :=
  (keyed_withGrid s _).nodup

/-- **A saved cell** holds what is entered for the literal that is shown. -/
theorem mem_saved {x : String × Scalar} : x ∈ s.saved.cells ↔
    ∃ p : Position, p.row < s.rows ∧ p.column < s.cols ∧ x.1 = p.label ∧
      (s.held p.label).shownLiteral.entered? = some x.2 := by
  rw [saved, mem_withGrid]
  refine exists_congr fun p => and_congr_right fun hrow => and_congr_right fun hcolumn => ?_
  rw [shownAt?_literalGrid hrow hcolumn, Option.bind_some]

theorem held_saved (hrow : p.row < s.rows) (hcolumn : p.column < s.cols) :
    s.saved.held p.label = ((s.held p.label).shownLiteral.entered?).getD .null := by
  rw [held, saved, get?_withGrid hrow hcolumn, shownAt?_literalGrid hrow hcolumn, Option.bind_some]

/-- **A saved cell holds a formula** if the literal is read as a text that is one. -/
theorem formulas_saved (h : s.OfLiterals) : s.saved.formulas = [] ↔
    ∀ x ∈ s.cells, x.2.literalValue.isFormula = false := by
  have hempty : s.saved.formulas = [] ↔ ∀ x ∈ s.saved.cells, x.2.isFormula = false := by
    simp [formulas, List.filter_eq_nil_iff]
  rw [hempty]
  constructor
  · intro hsaved x hx
    obtain ⟨p, hrow, hcolumn, hlabel⟩ := h.placed x hx
    refine Bool.eq_false_iff.mpr fun hform => ?_
    have hheld : s.held p.label = x.2 := hlabel ▸ held_of_mem h.nodup hx
    obtain ⟨w, hw⟩ := Scalar.exists_entered_of_isFormula hform
    rw [← Scalar.shownLiteral_of_isFormula hform, ← hheld] at hw
    have hnot := hsaved (p.label, w) (mem_saved.mpr ⟨p, hrow, hcolumn, rfl, hw⟩)
    rw [Scalar.isFormula_entered hw, Scalar.isFormula_shownLiteral, hheld, hform] at hnot
    cases hnot
  · intro hs x hx
    obtain ⟨p, hrow, hcolumn, hlabel, hw⟩ := mem_saved.mp hx
    rw [Scalar.isFormula_entered hw, Scalar.isFormula_shownLiteral]
    rcases held_cases h.nodup p.label with hnull | hmem
    · rw [hnull]
      rfl
    · exact hs _ hmem

/-- What is shown again at a position of the saved sheet that holds no formula. -/
theorem shown_of_saved (h : s.OfLiterals) (hgrid : s.saved.grid marker = .ok s.literalGrid)
    {x : String × Scalar} (hx : x ∈ s.cells) (hw : x.2.literalValue.isFormula = false) :
    ((x.2.shownLiteral.entered?).getD .null).shownLiteral = x.2.shownLiteral := by
  obtain ⟨p, hrow, hcolumn, hlabel⟩ := h.placed x hx
  have hheld : s.held p.label = x.2 := hlabel ▸ held_of_mem h.nodup hx
  have hcell : s.saved.source.cell p.label = (x.2.shownLiteral.entered?).getD .null := by
    rw [source_cell_eq (nodup_saved s), ← hheld]
    exact held_saved hrow hcolumn
  have hform : ¬ s.saved.source.HasFormula p.label := by
    unfold Source.HasFormula
    rw [hcell]
    cases he : x.2.shownLiteral.entered? with
    | none => exact Bool.false_ne_true
    | some w =>
      rw [Option.getD_some, Content.isFormula_scalar, Scalar.isFormula_entered he,
        Scalar.isFormula_shownLiteral, hw]
      exact Bool.false_ne_true
  have hanswer : answerGrid s.saved marker (after s.saved []) = .ok s.literalGrid := hgrid
  have hentry := entry_of_literal hanswer hrow hcolumn hform
  rw [shownAt?_literalGrid hrow hcolumn, hcell, hheld] at hentry
  exact (Option.some.inj hentry).symm

/-- If the saved sheet shows the same grid, no literal wears more than one apostrophe before what
looks like a formula. -/
theorem not_escaped_of_saved (h : s.OfLiterals) (hgrid : s.saved.grid marker = .ok s.literalGrid)
    {x : String × Scalar} (hx : x ∈ s.cells) (hw : x.2.literalValue.isFormula = false) :
    x.2.isEscaped = false := by
  have hform := h.literal x hx
  refine Bool.eq_false_iff.mpr fun he => ?_
  have hshown := shown_of_saved h hgrid hx hw
  obtain ⟨rest, -, hrest, hv⟩ := Scalar.exists_of_isEscaped hform he
  have hliteral : x.2.shownLiteral = .text rest := by
    rw [Scalar.shownLiteral, hv, if_neg (by simp)]
  rw [hv] at hw
  rw [hliteral] at hshown
  cases hentered : (Scalar.text rest).entered? with
  | none =>
    have hempty : rest.isEmpty = true := by
      have htext : (if rest.isEmpty then none else some (Scalar.text rest).trimFormula) = none :=
        hentered
      split_ifs at htext with hs
      exact hs
    rw [String.isEmpty_iff.mp hempty] at hrest
    cases hrest
  | some w =>
    obtain rfl := Scalar.entered_of_not_formula hw hentered
    rw [hentered, Option.getD_some] at hshown
    refine Scalar.literalValue_ne hw hrest ?_
    obtain ⟨_, -, -, hrest'⟩ := Scalar.exists_of_isEscaped hw hrest
    rw [Scalar.shownLiteral, hrest', if_neg (by simp)] at hshown
    rw [hrest', hshown]

/-- **A formula of the saved sheet shows the marker**, or no text that looks like a formula. -/
theorem not_formula_of_saved (h : s.OfLiterals) (hgrid : s.saved.grid marker = .ok s.literalGrid)
    (hp : p.row < s.rows ∧ p.column < s.cols) (hform : s.saved.source.HasFormula p.label) :
    (s.held p.label).shownLiteral = .text marker ∨
      (s.held p.label).shownLiteral.isFormula = false := by
  have hliteral (l : String) (hl : ¬ s.saved.source.HasFormula l) :
      (s.saved.source.literal l).isFormula = false := by
    have hcell : s.saved.source.cell l = s.saved.held l := source_cell_eq (nodup_saved s) l
    unfold Source.HasFormula at hl
    rw [hcell] at hl
    rw [Source.literal, hcell, Content.reading_scalar]
    split_ifs with hnull
    · rfl
    · obtain ⟨q, hrow, hcolumn, rfl, hw⟩ :=
        mem_saved.mp ((held_cases (nodup_saved s) l).resolve_left hnull)
      have hshown : (s.held q.label).literalValue.isFormula = false := by
        rw [← Scalar.isFormula_shownLiteral, ← Scalar.isFormula_entered hw]
        exact Bool.eq_false_iff.mpr hl
      have hsame : s.saved.held q.label = (s.held q.label).shownLiteral :=
        Scalar.entered_of_not_formula (Scalar.isFormula_shownLiteral.trans hshown) hw
      rcases held_cases h.nodup q.label with hnone | hmem
      · rw [hsame, hnone]
        rfl
      · have hplain := not_escaped_of_saved h hgrid hmem hshown
        have hread := Scalar.literalValue_of_not_escaped hplain
        rw [hsame, Scalar.shownLiteral, hread]
        split_ifs
        · rfl
        · rw [hread, ← hread, hshown]
  have hentry {label : String} {now later : State} {v : Scalar}
      (hnow : ValuesWithin (fun v => v.isFormula = false) now)
      (hv : Gives (gridEntry s.saved.source marker label) now (.ok v) later) :
      ValuesWithin (fun v => v.isFormula = false) later ∧
        (s.saved.source.HasFormula label → v = .text marker ∨ v.isFormula = false) :=
    gridEntry_valuesWithin (fun _ => mem_formulas_of_hasFormula) (fun _ => rfl) (fun _ => rfl)
      hliteral (by rfl) hnow hv
  have hstart : ValuesWithin (fun v => v.isFormula = false) {} := fun key v hv => by simp at hv
  obtain ⟨-, hentries⟩ := entries_of_gives_grid hentry hstart (Prod.ext hgrid rfl)
  obtain ⟨v, hv, hrel⟩ := hentries p hp.1 hp.2
  rw [shownAt?_literalGrid hp.1 hp.2] at hv
  exact Option.some.inj hv ▸ hrel hform

/-- **A sheet of literals is shown and saved.** The saved sheet shows the same grid if, and only if,
no literal wears an apostrophe before what looks like a formula; and it holds a formula if, and only
if, some literal wears just one. -/
theorem saved_grid_iff (h : s.OfLiterals) (hmarker : (Scalar.text marker).isFormula = false) :
    ∃ shown, s.grid marker = .ok shown ∧
      ((s.withGrid shown).grid marker = .ok shown ↔ ∀ x ∈ s.cells, x.2.isEscaped = false) ∧
      ((s.withGrid shown).formulas = [] ↔ ∀ x ∈ s.cells, x.2.literalValue.isFormula = false) := by
  refine ⟨s.literalGrid, grid_of_not_formula h.nodup h.literal marker, ⟨fun hgrid x hx => ?_,
    fun hplain => ?_⟩, formulas_saved h⟩
  · refine not_escaped_of_saved h hgrid hx (Bool.eq_false_iff.mpr fun hform => ?_)
    obtain ⟨p, hrow, hcolumn, hlabel⟩ := h.placed x hx
    have hheld : s.held p.label = x.2 := hlabel ▸ held_of_mem h.nodup hx
    have hshown := Scalar.shownLiteral_of_isFormula hform
    obtain ⟨w, hw⟩ := Scalar.exists_entered_of_isFormula hform
    have hsaved : s.saved.source.HasFormula p.label := by
      unfold Source.HasFormula
      rw [source_cell_eq (nodup_saved s)]
      show (s.saved.held p.label).isFormula = true
      rw [held_saved hrow hcolumn, hheld, hshown, hw, Option.getD_some,
        Scalar.isFormula_entered hw, hform]
    rcases not_formula_of_saved h hgrid ⟨hrow, hcolumn⟩ hsaved with heq | hnot
    · rw [hheld, hshown] at heq
      rw [heq, hmarker] at hform
      cases hform
    · rw [hheld, hshown, hform] at hnot
      cases hnot
  · have hnone : s.saved.formulas = [] := (formulas_saved h).mpr fun x hx => by
      rw [Scalar.literalValue_of_not_escaped (hplain x hx), h.literal x hx]
    have hsaved : ∀ x ∈ s.saved.cells, x.2.isFormula = false := by
      simpa [formulas, List.filter_eq_nil_iff] using hnone
    have hsame : s.saved.literalGrid = s.literalGrid := by
      refine List.map_congr_left fun row hrow => List.map_congr_left fun column hcolumn => ?_
      rw [held_saved (List.mem_range.mp hrow) (List.mem_range.mp hcolumn)]
      rcases held_cases h.nodup (Position.mk row column).label with hnull | hmem
      · rw [hnull]
        rfl
      · exact Scalar.shownLiteral_entered (h.literal _ hmem) (hplain _ hmem)
    exact (grid_of_not_formula (nodup_saved s) hsaved marker).trans (congrArg Except.ok hsame)

/-- A sheet of literals, one of them under an apostrophe that keeps nothing from being a formula. -/
def literals : Sheet :=
  small [("B1", .text "'tis '=1"), ("A2", .int 1), ("C3", .null), ("A1", .text "")]

theorem saved_grid_iff_literals : literals.OfLiterals ∧
    (Scalar.text defaultMarker).isFormula = false ∧ ∃ shown, literals.grid defaultMarker = .ok shown ∧
      (literals.withGrid shown).grid defaultMarker = .ok shown ∧
        (literals.withGrid shown).formulas = [] := by
  have hB : (Position.mk 0 1).label = "B1" := Label.label_of_column_lt (by decide)
  have hA2 : (Position.mk 1 0).label = "A2" := Label.label_of_column_lt (by decide)
  have hC : (Position.mk 2 2).label = "C3" := Label.label_of_column_lt (by decide)
  have hA : (Position.mk 0 0).label = "A1" := Label.label_of_column_lt (by decide)
  have hs : literals.OfLiterals :=
    ⟨by decide, by decide, List.forall_mem_cons.mpr ⟨⟨⟨0, 1⟩, by decide, by decide, hB.symm⟩,
      List.forall_mem_cons.mpr ⟨⟨⟨1, 0⟩, by decide, by decide, hA2.symm⟩,
        List.forall_mem_cons.mpr ⟨⟨⟨2, 2⟩, by decide, by decide, hC.symm⟩,
          List.forall_mem_singleton.mpr ⟨⟨0, 0⟩, by decide, by decide, hA.symm⟩⟩⟩⟩⟩
  have hmarker : (Scalar.text defaultMarker).isFormula = false := by decide
  obtain ⟨shown, hshown, hgrid, hformulas⟩ := saved_grid_iff hs hmarker
  exact ⟨hs, hmarker, shown, hshown, hgrid.mpr (by decide), hformulas.mpr (by decide)⟩

/-- A sheet with a literal that is shown as a text like a formula. -/
def quotedSum : Sheet :=
  small [("A1", .text "'=1+1")]

/-- **A literal that looks like a formula is not kept** when its grid is saved as it is shown. -/
theorem not_saved_quoted : ¬ ∀ s : Sheet, s.OfLiterals → ∃ shown,
    s.grid defaultMarker = .ok shown ∧ (s.withGrid shown).grid defaultMarker = .ok shown ∧
      (s.withGrid shown).formulas = [] := by
  intro h
  have hA : (Position.mk 0 0).label = "A1" := Label.label_of_column_lt (by decide)
  have hs : quotedSum.OfLiterals :=
    ⟨by decide, by decide,
      List.forall_mem_singleton.mpr ⟨⟨0, 0⟩, by decide, by decide, hA.symm⟩⟩
  obtain ⟨shown, hshown, -, hformulas⟩ := h quotedSum hs
  obtain rfl := Except.ok.inj ((grid_of_not_formula hs.nodup hs.literal _).symm.trans hshown)
  have hliteral := (formulas_saved hs).mp hformulas ("A1", .text "'=1+1") List.mem_cons_self
  exact absurd hliteral (by decide)

end Sheet

end Spreadsheet
