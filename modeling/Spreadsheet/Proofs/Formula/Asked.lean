import Spreadsheet.Proofs.Formula.Direct
import Spreadsheet.Proofs.Session.Grounds

/-! # Which cells a formula asks for

A formula is evaluated over a table of values, and the labels it asks for are noted, in order and
with repetitions (`Expr.evaluateNoting`). If it comes to a value, it has asked for every cell of its
eager references, and for no cell that its references do not cover; without `IF` it has asked for
the cells of its eager references in the order in which these are listed
(`eager_subset_requested`).

The references are listed once for each text, while the same cell may stand in several of them, so
the orders agree up to repetitions (`expands_foldl_addTo`). -/

namespace Spreadsheet

/-! ### The labels of references -/

namespace Reference

theorem Expands.subset {rs : List Reference} {labels : List String} (h : Expands rs labels)
    {r : Reference} (hr : r ∈ rs) {here : List String} (hhere : r.labels = .ok here) :
    here ⊆ labels := by
  induction h with
  | nil => cases hr
  | cons h _ ih =>
    rcases List.mem_cons.mp hr with rfl | hr
    · obtain rfl := Except.ok.inj (hhere.symm.trans h)
      exact List.subset_append_left _ _
    · exact fun l hl => List.mem_append_right _ (ih hr hl)

theorem Expands.unique {rs : List Reference} {labels labels' : List String}
    (h : Expands rs labels) (h' : Expands rs labels') : labels = labels' := by
  induction h generalizing labels' with
  | nil => cases h'; rfl
  | cons h _ ih =>
    cases h' with
    | cons h' hrest =>
      obtain rfl := Except.ok.inj (h.symm.trans h')
      rw [ih hrest]

/-- References whose cells are all among the labels can be expanded to some of them. -/
theorem exists_expands {labels : List String} : ∀ {rs : List Reference},
    (∀ r ∈ rs, ∃ here, r.labels = .ok here ∧ here ⊆ labels) →
      ∃ expanded, Expands rs expanded ∧ expanded ⊆ labels
  | [], _ => ⟨[], .nil, List.nil_subset _⟩
  | r :: rs, h => by
    obtain ⟨here, hhere, hsub⟩ := h r List.mem_cons_self
    obtain ⟨rest, hrest, hsub'⟩ := exists_expands fun x hx => h x (List.mem_cons_of_mem r hx)
    exact ⟨here ++ rest, .cons hhere hrest, List.append_subset.mpr ⟨hsub, hsub'⟩⟩

/-- **References listed once for each text** have the labels of all of them in the same order, up
to repetitions, if references of one text have the same labels. -/
theorem expands_foldl_addTo {rs met : List Reference} {before after : List String}
    (htext : ∀ r ∈ met ++ rs, ∀ r' ∈ met ++ rs, r.text = r'.text → r.labels = r'.labels)
    (hmet : Expands met before) (hrs : Expands rs after) : ∃ labels,
      Expands (rs.foldl addTo met) labels ∧ labels.eraseDups = (before ++ after).eraseDups := by
  induction hrs generalizing met before with
  | nil => exact ⟨before, hmet, by rw [List.append_nil]⟩
  | @cons r rs here rest hr _ ih =>
    rw [List.foldl_cons]
    by_cases hthere : r.text ∈ met.map text
    · -- the labels of `r` stand before, as those of the reference with its text
      have hadd : addTo met r = met := addTo_of_mem hthere
      obtain ⟨y, hy, hyr⟩ := List.mem_map.mp hthere
      have hlabels : y.labels = .ok here :=
        (htext y (by simp [hy]) r (by simp) hyr).trans hr
      obtain ⟨labels, hlabels', hsame⟩ :=
        ih (fun a ha b hb => htext a (by grind) b (by grind)) hmet
      refine ⟨labels, by rwa [hadd], hsame.trans ?_⟩
      exact (eraseDups_append_of_subset rest (hmet.subset hy hlabels)).symm
    · have hadd : addTo met r = met ++ [r] := addTo_of_not_mem hthere
      have htext' : ∀ a ∈ (met ++ [r]) ++ rs, ∀ b ∈ (met ++ [r]) ++ rs,
          a.text = b.text → a.labels = b.labels :=
        fun a ha b hb => htext a (by simpa using ha) b (by simpa using hb)
      obtain ⟨labels, hlabels, hsame⟩ := ih htext' (hmet.append (expands_single hr))
      exact ⟨labels, by rwa [hadd], by rw [hsame, List.append_assoc]⟩

end Reference

namespace Expr

open Reference (Expands)

variable {e : Expr}

/-- A tree with plain labels lists its eager references in order, up to repetitions. -/
theorem PlainCells.expands_eagerReferences (h : e.PlainCells) {labels : List String}
    (hl : Expands e.eagerMentions labels) : ∃ labels',
      Expands e.eagerReferences labels' ∧ labels'.eraseDups = labels.eraseDups := by
  have hcollect : e.eagerReferences = e.eagerMentions.foldl Reference.addTo [] := by
    rw [eagerReferences, collect_eq_foldl]
    simp [eagerMentions]
  rw [hcollect, ← List.nil_append labels]
  refine Reference.expands_foldl_addTo (fun r hr r' hr' htext => ?_) .nil hl
  exact h.labels_eq_of_text (mem_mentions_of_mem_eagerMentions hr)
    (mem_mentions_of_mem_eagerMentions hr') htext

/-- The value of a tree over a table of values, with the labels that it asks for, in order. -/
def evaluateNoting (value : String → Scalar) (e : Expr) : Except Fault Value × List String :=
  StateT.run (e.evaluate fun l => do
    modify (· ++ [l])
    (return .scalar (value l) : ExceptT Fault (StateM (List String)) Value)).run []

theorem evaluateNoting_eq (value : String → Scalar) (e : Expr) :
    e.evaluateNoting value = (e.inquiry.answerBy value, e.inquiry.readBy value) := by
  have h := Inquiry.runIn_noting value e.inquiry []
  rw [← e.evaluate_eq_runIn, List.nil_append] at h
  simpa [evaluateNoting] using h

/-- **What a formula asks for lies between its eager references and all of them.** Over every table
of values, the tree of a formula's body that comes to a value has asked for all cells of its eager
references, each of which can be expanded, and only for cells that its references cover. If there is
no `IF` in it, the cells asked for are those of the eager references, in the same order, when later
repetitions are dropped. -/
theorem eager_subset_requested {body : String} (hbody : Formula.ofBody body = .ok e)
    {value : String → Scalar} {v : Value} {requested : List String}
    (hv : e.evaluateNoting value = (.ok v, requested)) : ∃ eager,
      Expands e.eagerReferences eager ∧ eager ⊆ requested ∧
        (∀ l ∈ requested, ∃ r ∈ e.references, r.Covers l) ∧
        (e.Unconditional → requested.eraseDups = eager.eraseDups) := by
  have hplain := Formula.plainCells_of_ofBody hbody
  rw [evaluateNoting_eq, Prod.mk.injEq] at hv
  obtain ⟨hv, rfl⟩ := hv
  have hresolve : e.inquiry.resolve (Inquiry.table value) = some (.ok v) := by
    rw [Inquiry.resolve_table, hv]
  have hmeets (r : Reference) (hr : r ∈ e.eagerReferences) :
      ∃ here, r.labels = .ok here ∧ here ⊆ e.inquiry.readBy value := by
    rw [← Inquiry.asked_table]
    exact meets_evaluate e hresolve r (mem_eagerMentions_of_mem_eagerReferences hr)
  have hcovered (l : String) (hl : l ∈ e.inquiry.readBy value) :
      ∃ r ∈ e.references, r.Covers l := by
    have hasks : e.inquiry.AsksOnly fun l => ∃ r ∈ e.references, r.Covers l :=
      asksOnly_evaluate e fun r hr l hl => hplain.covers_references hr hl
    rw [← Inquiry.asked_table] at hl
    exact hasks.of_mem_asked hl
  obtain ⟨eager, heager, hsub⟩ := Reference.exists_expands hmeets
  refine ⟨eager, heager, hsub, hcovered, fun hif => ?_⟩
  obtain ⟨eager', heager', hsame⟩ :=
    hplain.expands_eagerReferences (expands_evaluate e hif hresolve)
  rw [heager.unique heager', hsame, ← Inquiry.asked_table]
  rfl

/-- A product and a sum in which a range stands twice, and one of its cells besides. -/
def repeating : Expr :=
  let total : Expr := .call "SUM" [.range "B1" "A1"]
  .binary .add (.binary .mul total (.cell "A1")) total

theorem evaluateNoting_repeating : repeating.evaluateNoting (fun _ => .int 2) =
    (.ok (.int 12), ["A1", "B1", "A1", "A1", "B1"]) := by
  have hA : (Position.mk 0 0).label = "A1" := Label.label_of_column_lt (by decide)
  have hB : (Position.mk 0 1).label = "B1" := Label.label_of_column_lt (by decide)
  have hlabels : Range.labels ("B1" ++ ":" ++ "A1") =
      .ok [(Position.mk 0 0).label, (Position.mk 0 1).label] := rfl
  rw [hA, hB] at hlabels
  have hname : isConditional "SUM" = false := by decide
  have hsum (args : List Value) : Function.applyNamed "SUM" args = Function.sum.apply args := by
    unfold Function.applyNamed
    rw [show Text.upper "SUM" = "SUM" by decide]
    rfl
  simp only [evaluateNoting, repeating, evaluate, evaluateList, readRange, hname, hsum, hlabels]
  rfl

/-- The range is asked for twice and listed once. -/
theorem eager_subset_requested_repeating :
    Formula.ofBody "SUM(B1:A1)*A1+SUM(B1:A1)" = .ok repeating ∧
      repeating.evaluateNoting (fun _ => .int 2) = (.ok (.int 12), ["A1", "B1", "A1", "A1", "B1"]) ∧
      ∃ eager, Expands repeating.eagerReferences eager ∧
        eager ⊆ ["A1", "B1", "A1", "A1", "B1"] ∧
        (∀ l ∈ ["A1", "B1", "A1", "A1", "B1"], ∃ r ∈ repeating.references, r.Covers l) ∧
        (repeating.Unconditional →
          ["A1", "B1", "A1", "A1", "B1"].eraseDups = eager.eraseDups) := by
  have hbody : Formula.ofBody "SUM(B1:A1)*A1+SUM(B1:A1)" = .ok repeating := rfl
  exact ⟨hbody, evaluateNoting_repeating, eager_subset_requested hbody evaluateNoting_repeating⟩

end Expr

end Spreadsheet
