import Spreadsheet.Proofs.Formula.Sums
import Spreadsheet.Proofs.Session.Literals
import Spreadsheet.Proofs.Session.Requests
import Spreadsheet.Proofs.Sheet.Loading

/-! # Sums over ranges in sessions

A cell that is read in a session may have to be computed first, so an expression that is evaluated
there may find one state and leave another. But it leaves the session as requests for cells do
(`Succeeds`). So it does not matter what a session has computed already and what is computed on the
way: sums over ranges are the totals of their cells, and are taken by parts (`after_sum_cut`). -/

namespace Spreadsheet.Session

open Range Spreadsheet.Expr

variable {sheet : Sheet} {requests : List Request}

/-- Whatever else the session has been asked for after the requests, the computation gives a value
with the property, and leaves the session as requests for cells do. -/
def Succeeds (sheet : Sheet) (requests : List Request) {α : Type} (x : Run α) (p : α → Prop) :
    Prop :=
  ∀ later : List Request, ∃ (a : α) (labels : List String), p a ∧
    Gives x (after sheet (requests ++ later)) (.ok a)
      (after sheet (requests ++ (later ++ labels.map .cell)))

theorem succeeding_succeeds : Succeeding (m := StateM State) (Succeeds sheet requests) where
  pure hp later := by
    refine ⟨_, [], hp, ?_⟩
    rw [List.map_nil, List.append_nil]
    exact gives_pure _ _
  bind hx hf later := by
    obtain ⟨a, labels, ha, hlabels⟩ := hx later
    obtain ⟨b, more, hb, hmore⟩ := hf a ha (later ++ labels.map .cell)
    refine ⟨b, labels ++ more, hb, hlabels.bind ?_⟩
    rwa [List.map_append, ← List.append_assoc later]

/-- Cells are read with the values that the session gives for them. -/
theorem succeeds_cellReader (hfit : sheet.NumeralsFit) {label : String} {p : Value → Prop}
    (h : ∀ later v, answer sheet (after sheet (requests ++ later)) label = .ok v →
      p (.scalar v)) : Succeeds sheet requests (cellReader sheet.source label) p := by
  intro later
  obtain ⟨v, hv, -⟩ := gives_read_after hfit.regular (requests ++ later) label
  refine ⟨.scalar v, [label], h later v (congrArg Prod.fst hv), ?_⟩
  rw [List.append_assoc] at hv
  exact hv.bind (gives_pure _ _)

/-- Whatever else the session has been asked for after the requests, the expression comes to the
integer in it, and leaves it as requests for cells do. -/
def ComesTo (sheet : Sheet) (requests : List Request) (e : Expr) (n : Int) : Prop :=
  ∀ later : List Request, ∃ labels : List String,
    Gives (e.evaluate (cellReader sheet.source)) (after sheet (requests ++ later)) (.ok (.int n))
      (after sheet (requests ++ (later ++ labels.map .cell)))

/-- **In a session the sum over a range is the sum over its parts.** The cells of a range are taken
for integers whenever they are read after the requests, and the range is cut between two of its rows
or columns. Then sums over it are the totals of its cells, and are taken by parts. -/
theorem after_sum_cut (hfit : sheet.NumeralsFit) {number : String → Int}
    {name l k l₁ k₁ l₂ k₂ : String} {p q p₁ q₁ p₂ q₂ : Position}
    (hname : Text.upper name = "SUM")
    (hl : Label.position l = .ok p) (hk : Label.position k = .ok q)
    (hl₁ : Label.position l₁ = .ok p₁) (hk₁ : Label.position k₁ = .ok q₁)
    (hl₂ : Label.position l₂ = .ok p₂) (hk₂ : Label.position k₂ = .ok q₂)
    (hcut : Cut p q p₁ q₁ p₂ q₂)
    (hcells : ∀ x ∈ rectangle p q, ∀ later v,
      answer sheet (after sheet (requests ++ later)) x.label = .ok v →
        (Value.scalar v).toNumber = .ok (.int (number x.label))) :
    SumsByParts (ComesTo sheet requests) number name l k l₁ k₁ l₂ k₂ p q p₁ q₁ p₂ q₂ := by
  have hholds : HoldsIntegers (@Succeeds sheet requests) (cellReader sheet.source) number p q :=
    fun x hx => succeeds_cellReader hfit (hcells x hx)
  refine (succeeding_succeeds.sumsByParts hholds hcut hname hl hk hl₁ hk₁ hl₂ hk₂).imp ?_
  intro e n h later
  obtain ⟨_, labels, rfl, hgives⟩ := h later
  exact ⟨labels, hgives⟩

/-- Cells that are taken for integers, one of them empty, and a formula that adds them up. -/
def tally : Sheet :=
  .small [("A1", .int 1), ("B1", .bool true), ("B2", .text "many"), ("C1", .text "=SUM(A1:B2)")]

theorem answer_tally (requests : List Request) : ∀ x ∈ rectangle ⟨0, 0⟩ ⟨1, 1⟩, ∀ v,
    answer tally (after tally requests) x.label = .ok v →
      (Value.scalar v).toNumber = .ok (.int (ledgerNumber x.label)) := by
  have hcell (label : String) : tally.source.cell label = (tally.cells.get? label).getD .null :=
    Sheet.source_cell_eq (by decide) label
  have hliteral : ∀ x ∈ rectangle ⟨0, 0⟩ ⟨1, 1⟩,
      ((tally.cells.get? (Label.normalize x.label)).getD .null).isFormula = false ∧
        (Value.scalar (Content.reading
          ((tally.cells.get? (Label.normalize x.label)).getD .null))).toNumber =
            .ok (.int (ledgerNumber x.label)) := by decide +kernel
  intro x hx v hv
  obtain ⟨hcontent, hnumber⟩ := hliteral x hx
  have hform : ¬ tally.source.HasFormula (Label.normalize x.label) := by
    rw [Source.HasFormula, hcell, Content.isFormula_scalar, hcontent]
    exact Bool.false_ne_true
  rw [answer_literal requests hform] at hv
  rw [← Except.ok.inj hv, Source.literal, hcell]
  exact hnumber

theorem after_sum_cut_tally : tally.NumeralsFit ∧ Text.upper "sum" = "SUM" ∧
    Label.position "A1" = .ok ⟨0, 0⟩ ∧ Label.position "B2" = .ok ⟨1, 1⟩ ∧
    Label.position "B1" = .ok ⟨0, 1⟩ ∧ Label.position "A2" = .ok ⟨1, 0⟩ ∧
    Cut ⟨0, 0⟩ ⟨1, 1⟩ ⟨0, 0⟩ ⟨0, 1⟩ ⟨1, 0⟩ ⟨1, 1⟩ ∧
    (∀ x ∈ rectangle ⟨0, 0⟩ ⟨1, 1⟩, ∀ later v,
      answer tally (after tally ([.cell "c1"] ++ later)) x.label = .ok v →
        (Value.scalar v).toNumber = .ok (.int (ledgerNumber x.label))) ∧
    SumsByParts (ComesTo tally [.cell "c1"]) ledgerNumber "sum" "A1" "B2" "A1" "B1" "A2" "B2"
      ⟨0, 0⟩ ⟨1, 1⟩ ⟨0, 0⟩ ⟨0, 1⟩ ⟨1, 0⟩ ⟨1, 1⟩ ∧
    total ledgerNumber ⟨0, 0⟩ ⟨1, 1⟩ = 2 := by
  have hfit : tally.NumeralsFit := Sheet.numeralsFit_of_short (by decide)
  have hname : Text.upper "sum" = "SUM" := by decide +kernel
  have hcut : Cut ⟨0, 0⟩ ⟨1, 1⟩ ⟨0, 0⟩ ⟨0, 1⟩ ⟨1, 0⟩ ⟨1, 1⟩ := .rows rfl rfl rfl rfl rfl
  have hcells : ∀ x ∈ rectangle ⟨0, 0⟩ ⟨1, 1⟩, ∀ later v,
      answer tally (after tally ([.cell "c1"] ++ later)) x.label = .ok v →
        (Value.scalar v).toNumber = .ok (.int (ledgerNumber x.label)) :=
    fun x hx later v => answer_tally _ x hx v
  exact ⟨hfit, hname, rfl, rfl, rfl, rfl, hcut, hcells,
    after_sum_cut hfit hname rfl rfl rfl rfl rfl rfl hcut hcells, by decide +kernel⟩

end Spreadsheet.Session
