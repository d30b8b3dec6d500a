import Spreadsheet.Proofs.Session.OrderIndependence
import Mathlib.Order.WellFoundedSet

/-! # Denotations of acyclic sheets

If no formula refers to its own cell, directly or through others (`Source.Acyclic`), the labels of a
sheet denote values without regard to any session: a formula denotes what it comes to over the
denotations of the cells that it refers to (`Source.denotes`, `denotes_of_formula`).

* `wellFounded_refersTo`: the recursion ends, since there are finitely many formulas.
* `denotes_solves`: the denotations are a solution.
* `after_denotes`: a session finds the denotations, and fails where they fail. -/

namespace Spreadsheet

open Relation (TransGen)
open Session (formulaAt cellResult valueOf)

/-- No formula refers to its own cell, directly or through others, branches not taken included. -/
def Source.Acyclic (src : Source) : Prop :=
  ∀ c, ¬ TransGen src.RefersTo c c

/-- What the formula at `c` comes to over a table of values: a scalar, or why there is none. -/
def Source.formulaOver (src : Source) (value : String → Scalar) (c : String) :
    Except Fault Scalar :=
  cellResult (formulaAt src c) <|
    match Formula.ofText (formulaAt src c) with
    | .ok tree => Id.run (tree.evaluate fun l => pure (.scalar (value l))).run
    | .error f => .error f

variable {src : Source}

theorem Inquiry.runIn_table {α : Type} (value : String → Scalar) (q : Inquiry (Except Fault α)) :
    (q.runIn fun l => (pure (value l) : ExceptT Fault Id Scalar)).run = q.answerBy value := by
  induction q with
  | answer r => rfl
  | ask l next ih => exact ih (value l)

/-- Evaluation over a table is the answer of the inquiry over it. -/
theorem Source.formulaOver_eq (src : Source) (value : String → Scalar) (c : String) :
    src.formulaOver value c = (src.inquiry c).answerBy value := by
  have hmap {q : Inquiry (Except Fault Value)} {g : Except Fault Value → Except Fault Scalar} :
      (g <$> q).answerBy value = g (q.answerBy value) := by
    have h := Inquiry.resolve_map (Inquiry.table value) g q
    rw [Inquiry.resolve_table, Inquiry.resolve_table] at h
    exact Option.some.inj h
  unfold Source.formulaOver Source.inquiry
  rw [hmap]
  cases he : Formula.ofText (formulaAt src c) with
  | error f =>
    rw [Formula.inquiry_of_fault he]
    rfl
  | ok e =>
    rw [Formula.inquiry_of_tree he, ← Inquiry.runIn_table, ← e.evaluate_eq_runIn]
    rfl

theorem Inquiry.answerBy_congr {α : Type} {value value' : String → Scalar} {q : Inquiry α}
    (h : ∀ l ∈ q.readBy value', value l = value' l) : q.answerBy value = q.answerBy value' := by
  induction q with
  | answer a => rfl
  | ask l next ih =>
    have hl : value l = value' l := h l (by simp [readBy])
    show (next (value l)).answerBy value = (next (value' l)).answerBy value'
    rw [hl]
    exact ih (value' l) fun m hm => h m (by simp [readBy, hm])

namespace Source

/-- References that lead to lower ranks close no cycle. -/
theorem acyclic_of_rank (rank : String → Nat)
    (h : ∀ c l, src.RefersTo c l → rank l < rank c) : src.Acyclic := by
  intro c hc
  have hlt {c l} (hc : TransGen src.RefersTo c l) : rank l < rank c := by
    induction hc with
    | single h' => exact h _ _ h'
    | tail _ h' ih => exact (h _ _ h').trans ih
  exact (hlt hc).false

/-- **The recursion along references ends.** -/
theorem wellFounded_refersTo (hlisted : ∀ l, src.HasFormula l → l ∈ src.formulas)
    (h : src.Acyclic) : WellFounded fun l c => src.RefersTo c l := by
  have horder : IsStrictOrder String fun l c => TransGen src.RefersTo c l :=
    { irrefl := h, trans := fun _ _ _ hab hbc => hbc.trans hab }
  have hon := (List.finite_toSet src.formulas).wellFoundedOn
    (r := fun l c => TransGen src.RefersTo c l)
  have hformula : ∀ c ∈ src.formulas, Acc (fun l c => src.RefersTo c l) c := by
    intro c hc
    refine hon.induction (P := Acc fun l c => src.RefersTo c l) hc fun c _ ih => ?_
    refine Acc.intro c fun l hl => ?_
    by_cases hmem : l ∈ src.formulas
    · exact ih l hmem (.single hl)
    · exact Acc.intro l fun m hm => absurd (hlisted l hm.1) hmem
  refine ⟨fun c => ?_⟩
  by_cases hmem : c ∈ src.formulas
  · exact hformula c hmem
  · exact Acc.intro c fun m hm => absurd (hlisted c hm.1) hmem

open Classical in
/-- **What a label denotes**: what the cell holds, 0 if it is empty, and for a formula what it comes
to over the denotations, a failure reading as 0. -/
noncomputable def denotes (src : Source) (hwf : WellFounded fun l c => src.RefersTo c l) :
    String → Except Fault Scalar :=
  hwf.fix fun c denoted =>
    if src.HasFormula c then
      src.formulaOver (fun l => if h : src.RefersTo c l then valueOf (denoted l h) else .int 0) c
    else .ok (src.literal c)

theorem denotes_literal (hwf : WellFounded fun l c => src.RefersTo c l) {l : String}
    (hl : ¬ src.HasFormula l) : src.denotes hwf l = .ok (src.literal l) := by
  rw [denotes, hwf.fix_eq, if_neg hl]

/-- **A formula denotes what it comes to over the denotations.** -/
theorem denotes_of_formula (hwf : WellFounded fun l c => src.RefersTo c l) {c : String}
    (hc : src.HasFormula c) :
    src.denotes hwf c = src.formulaOver (fun l => valueOf (src.denotes hwf l)) c := by
  rw [denotes, hwf.fix_eq, if_pos hc, formulaOver_eq, formulaOver_eq]
  refine Inquiry.answerBy_congr fun l hl => ?_
  rw [← Inquiry.asked_table] at hl
  exact dif_pos (hc.refersTo_of_mem_asked hl)

/-- **The denotations of an acyclic source are a solution of all its formulas.** -/
theorem denotes_solves (hacyclic : src.Acyclic) (hwf : WellFounded fun l c => src.RefersTo c l) :
    Session.Solves src src.ahead (fun l => valueOf (src.denotes hwf l)) src.HasFormula where
  literal l hl := by rw [denotes_literal hwf hl]; rfl
  formula c hc := by rw [denotes_of_formula hwf hc, formulaOver_eq]
  closed c l _ h := h.1
  acyclic c hc h := by
    have hrefers {c l} (hc : src.HasFormula c)
        (h : Session.Reads src src.ahead (fun l => valueOf (src.denotes hwf l)) c l) :
        src.RefersTo c l := by
      rcases h.2 with hl | hl
      · rw [← Inquiry.asked_table] at hl
        exact hc.refersTo_of_mem_asked hl
      · exact hc.refersTo_of_mem_ahead hl
    have htrans {l} (h : TransGen (Session.Reads src src.ahead
        fun l => valueOf (src.denotes hwf l)) c l) :
        TransGen src.RefersTo c l ∧ src.HasFormula l := by
      induction h with
      | single h => exact ⟨.single (hrefers hc h), h.1⟩
      | tail _ h ih => exact ⟨ih.1.tail (hrefers ih.2 h), h.1⟩
    exact hacyclic c (htrans h).1

end Source

variable {s : Sheet}

/-- What the labels of an acyclic sheet denote. -/
noncomputable def Sheet.denotes (s : Sheet) (hfit : s.NumeralsFit)
    (hacyclic : s.source.Acyclic) : String → Except Fault Scalar :=
  s.source.denotes (s.source.wellFounded_refersTo hfit.regular.listed hacyclic)

/-- **Sessions over an acyclic sheet find its denotations.** After any requests, every label that is
asked for has the value that it denotes; no cycle is recorded; and the failures recorded are those
of the formula cells computed so far whose denotation is a failure, with that failure. -/
theorem Session.after_denotes (hfit : s.NumeralsFit) (hacyclic : s.source.Acyclic)
    (requests : List Request) :
    (∀ label, answer s (after s requests) label =
      .ok (valueOf (s.denotes hfit hacyclic (Label.normalize label)))) ∧
    (∀ c, (after s requests).errors.get? c ≠ some .cycle) ∧
    ∀ c e, (after s requests).errors.get? c = some e ↔
      s.source.HasFormula c ∧ c ∈ (after s requests).memo ∧
        ∃ f, s.denotes hfit hacyclic c = .error f ∧ e = .fault f := by
  have hwf := s.source.wellFounded_refersTo hfit.regular.listed hacyclic
  obtain ⟨xs, hxs⟩ := answers_after hfit.regular requests
  have hsolves := Source.denotes_solves hacyclic hwf
  obtain ⟨hs, hrun⟩ := after_sound hfit requests
  obtain ⟨hagrees, -⟩ := hxs.agrees hsolves rfl (sound_empty _) (agrees_empty _ _ _)
    fun x _ hform => hform
  have herrors : ∀ c e, (after s requests).errors.get? c = some e ↔
      s.source.HasFormula c ∧ c ∈ (after s requests).memo ∧
        ∃ f, s.denotes hfit hacyclic c = .error f ∧ e = .fault f := by
    refine fun c e => (hagrees.errors c e).trans (and_congr_right fun hc => ?_)
    rw [Sheet.denotes, Source.denotes_of_formula hwf hc, Source.formulaOver_eq]
  refine ⟨answer_eq hfit.regular hsolves (fun _ => id) hs hrun hagrees, fun c hc => ?_, herrors⟩
  obtain ⟨-, -, f, -, hf⟩ := (herrors c .cycle).mp hc
  cases hf

theorem Session.chained_acyclic : chained.source.Acyclic := by
  refine Source.acyclic_of_rank (fun l => if l = "A1" then 1 else 0) fun c l h => ?_
  obtain ⟨hc, e, he, r, hr, labels, hlabels, hl⟩ := h
  have hcell := Sheet.mem_cells_of_hasFormula hc
  rw [Sheet.hasFormula_text hc] at hcell
  have hcell : c = "A1" ∧ formulaAt chained.source c = "=B1+1" ∨
      c = "B1" ∧ formulaAt chained.source c = "=2" := by
    simpa [chained, Sheet.small] using hcell
  rcases hcell with ⟨rfl, ht⟩ | ⟨rfl, ht⟩
  · have htree : Formula.ofText "=B1+1" =
        .ok (.binary .add (.cell "B1") (.literal (.int 1))) := rfl
    rw [ht, htree] at he
    obtain rfl := Except.ok.inj he
    obtain rfl : r = .cell "B1" := by
      simpa [Expr.references, Expr.collect, Reference.addTo] using hr
    obtain rfl := Except.ok.inj hlabels
    obtain rfl : l = "B1" := by simpa using hl
    decide
  · have htree : Formula.ofText "=2" = .ok (.literal (.int 2)) := rfl
    rw [ht, htree] at he
    obtain rfl := Except.ok.inj he
    simp [Expr.references, Expr.collect] at hr

theorem Session.after_denotes_chained :
    (∀ label, answer chained (after chained [.cell "a1"]) label =
      .ok (valueOf (chained.denotes chained_fits chained_acyclic (Label.normalize label)))) ∧
    (∀ c, (after chained [.cell "a1"]).errors.get? c ≠ some .cycle) ∧
    ∀ c e, (after chained [.cell "a1"]).errors.get? c = some e ↔
      chained.source.HasFormula c ∧ c ∈ (after chained [.cell "a1"]).memo ∧
        ∃ f, chained.denotes chained_fits chained_acyclic c = .error f ∧ e = .fault f :=
  after_denotes chained_fits chained_acyclic [.cell "a1"]

end Spreadsheet
