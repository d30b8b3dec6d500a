import Spreadsheet.Proofs.Formula.Acceptance
import Spreadsheet.Proofs.Session.Execution

/-! # Sheets that sessions can read

If no numeral in the formulas of a sheet is too long, sessions can read it (`Sheet.regular`): every
formula asks for cells by the labels under which they are kept, and what it reads ahead can be told.

* `mem_ahead`: what is read ahead is referred to in a tree.
* `HasFormula.asksOnly`: a formula asks only for what it refers to.
* `ahead_subset_asked`: a formula that comes to a value has asked for all that is read ahead. -/

namespace Spreadsheet

open Session (cellResult dependencies expand formulaAt)

/-- No integer and no row of a range in a formula of the sheet has too many digits to be read. -/
def Sheet.NumeralsFit (s : Sheet) : Prop :=
  ∀ label t, (label, Scalar.text t) ∈ s.cells → (Scalar.text t).isFormula = true →
    Formula.NumeralsFit (Formula.tokens t)

/-- The tokens of what a cell holds, taken as a formula. -/
def Scalar.tokens : Scalar → List Token
  | text t => Formula.tokens t
  | _ => []

/-- A sheet fits if all tokens of its texts are short enough. -/
theorem Sheet.numeralsFit_of_short {s : Sheet}
    (h : ∀ x ∈ s.cells, ∀ t ∈ x.2.tokens, t.text.toList.length ≤ numeralLimit) : s.NumeralsFit :=
  fun _ _ hmem _ => Formula.numeralsFit_of_short (h _ hmem)

/-! ### Inquiries of cells -/

namespace Inquiry

variable {α β : Type}

theorem map_eq_bind (g : α → β) (q : Inquiry α) : g <$> q = q >>= fun a => answer (g a) := rfl

theorem AsksOnly.map {p : String → Prop} {q : Inquiry α} (hq : q.AsksOnly p) (g : α → β) :
    (g <$> q).AsksOnly p :=
  hq.bind fun _ => trivial

theorem resolve_map (known : Knowledge) (g : α → β) (q : Inquiry α) :
    (g <$> q).resolve known = (q.resolve known).map g := by
  rw [map_eq_bind, resolve_bind]
  cases q.resolve known <;> rfl

theorem asked_map (known : Knowledge) (g : α → β) (q : Inquiry α) :
    (g <$> q).asked known = q.asked known := by
  rw [map_eq_bind, asked_bind]
  cases q.resolve known <;> simp [asked]

end Inquiry

theorem Formula.inquiry_of_tree {text : String} {e : Expr} (h : ofText text = .ok e) :
    inquiry text = e.inquiry := by
  simp only [inquiry, h]

theorem Formula.inquiry_of_fault {text : String} {f : Fault} (h : ofText text = .error f) :
    inquiry text = .answer (.error f) := by
  simp only [inquiry, h]

/-- A formula asks for what its tree asks for, if it has one. -/
theorem Source.asksOnly_inquiry {src : Source} {c : String} {p : String → Prop}
    (h : ∀ e, Formula.ofText (formulaAt src c) = .ok e → e.inquiry.AsksOnly p) :
    (src.inquiry c).AsksOnly p := by
  refine Inquiry.AsksOnly.map ?_ _
  cases he : Formula.ofText (formulaAt src c) with
  | ok e => rw [Formula.inquiry_of_tree he]; exact h e he
  | error f => rw [Formula.inquiry_of_fault he]; trivial

/-! ### What is read ahead -/

/-- Malformed ranges are left out, all others expanded. -/
theorem expand_ok : ∀ {rs : List Reference},
    (∀ r ∈ rs, ∀ f, r.labels = .error f → Label.IsBadReference f) → ∃ labels, expand rs = .ok labels
  | [], _ => ⟨[], rfl⟩
  | r :: rs, h => by
    obtain ⟨rest, hrest⟩ := expand_ok fun x hx => h x (List.mem_cons_of_mem r hx)
    unfold expand
    cases hr : r.labels with
    | ok labels => exact ⟨labels ++ rest, by rw [hrest]; rfl⟩
    | error f =>
      obtain ⟨ref, reason, rfl⟩ := h r (by simp) f hr
      exact ⟨rest, hrest⟩

theorem exists_covers_of_mem_expand : ∀ {rs : List Reference} {labels : List String},
    expand rs = .ok labels → ∀ {l}, l ∈ labels → ∃ r ∈ rs, r.Covers l
  | [], _, h, l, hl => by
    obtain rfl := Except.ok.inj h
    simp at hl
  | r :: rs, labels, h, l, hl => by
    unfold expand at h
    have hrest {labels} (h : expand rs = .ok labels) (hl : l ∈ labels) :
        ∃ r' ∈ r :: rs, r'.Covers l := by
      obtain ⟨r', hr', hc⟩ := exists_covers_of_mem_expand h hl
      exact ⟨r', List.mem_cons_of_mem r hr', hc⟩
    split at h
    · next here hr =>
      cases hx : expand rs with
      | error f => rw [hx] at h; cases h
      | ok rest =>
        rw [hx] at h
        obtain rfl := Except.ok.inj h
        rcases List.mem_append.mp hl with hl | hl
        · exact ⟨r, by simp, here, hr, hl⟩
        · exact hrest hx hl
    · exact hrest h hl
    · cases h

theorem mem_of_expand : ∀ {rs : List Reference} {labels : List String},
    expand rs = .ok labels → ∀ {r}, r ∈ rs → ∀ {l}, r.Covers l → l ∈ labels
  | [], _, _, r, hr, _, _ => by simp at hr
  | r' :: rs, labels, h, r, hr, l, ⟨here, hhere, hl⟩ => by
    unfold expand at h
    have hrest {labels} (h : expand rs = .ok labels) (hr : r ∈ rs) : l ∈ labels :=
      mem_of_expand h hr ⟨here, hhere, hl⟩
    split at h
    · next first hfirst =>
      cases hx : expand rs with
      | error f => rw [hx] at h; cases h
      | ok rest =>
        rw [hx] at h
        obtain rfl := Except.ok.inj h
        rcases List.mem_cons.mp hr with rfl | hr
        · obtain rfl := Except.ok.inj (hhere.symm.trans hfirst)
          exact List.mem_append_left rest hl
        · exact List.mem_append_right first (hrest hx hr)
    · next hbad =>
      rcases List.mem_cons.mp hr with rfl | hr
      · cases hhere.symm.trans hbad
      · exact hrest h hr
    · cases h

/-- A cell is read ahead only if an eager reference of the tree covers it. -/
theorem mem_ahead {src : Source} {c l : String} (h : l ∈ src.ahead c) :
    ∃ e, Formula.ofText (formulaAt src c) = .ok e ∧ ∃ r ∈ e.eagerReferences, r.Covers l := by
  unfold Source.ahead Session.dependencies at h
  cases he : Formula.ofText (formulaAt src c) with
  | error f =>
    rw [he] at h
    cases f <;> simp at h
  | ok e =>
    rw [he] at h
    refine ⟨e, rfl, ?_⟩
    dsimp only at h
    cases hx : expand e.eagerReferences with
    | error f => simp [hx] at h
    | ok labels =>
      rw [hx] at h
      exact exists_covers_of_mem_expand hx h

theorem Source.Regular.mem_ahead {src : Source} (hsrc : src.Regular) {c l : String}
    (hc : src.HasFormula c) {e : Expr} (he : Formula.ofText (formulaAt src c) = .ok e)
    {r : Reference} (hr : r ∈ e.eagerReferences) (hl : r.Covers l) : l ∈ src.ahead c := by
  have h := hsrc.dependencies c hc
  unfold Session.dependencies at h
  rw [he] at h
  exact mem_of_expand h hr hl

/-- The trees of all formulas are as they come from texts. -/
def Source.WellParsed (src : Source) : Prop :=
  ∀ c, src.HasFormula c → ∀ e, Formula.ofText (formulaAt src c) = .ok e → e.Parsed

/-- A source is regular if its formulas are listed and have trees or are refused by the grammar. -/
theorem Source.regular_of_parsed {src : Source} (hlisted : ∀ l, src.HasFormula l → l ∈ src.formulas)
    (hformula : ∀ l, src.HasFormula l →
      (∃ e, Formula.ofText (formulaAt src l) = .ok e ∧ e.Parsed) ∨
        ∃ f, Formula.ofText (formulaAt src l) = .error f ∧ Formula.IsBadSyntax f) :
    src.Regular where
  listed := hlisted
  normal l hl := by
    refine asksOnly_inquiry fun e he => ?_
    rcases hformula l hl with ⟨e', he', hparsed⟩ | ⟨f, hf, -⟩
    · obtain rfl := Except.ok.inj (he.symm.trans he')
      exact hparsed.plainCells.asksOnly
    · cases he.symm.trans hf
  dependencies l hl := by
    have hsome : ∃ labels, dependencies (formulaAt src l) = .ok labels := by
      unfold Session.dependencies
      rcases hformula l hl with ⟨e, he, hparsed⟩ | ⟨f, hf, reason, position, rfl⟩
      · rw [he]
        refine expand_ok fun r hr f hf => hparsed.badReference ?_ hf
        have heager := Expr.mem_eagerMentions_of_mem_eagerReferences hr
        exact Expr.mem_mentions_of_mem_eagerMentions heager
      · exact ⟨[], by rw [hf]⟩
    obtain ⟨labels, hlabels⟩ := hsome
    simp only [Source.ahead, hlabels]

namespace Source

variable {α : Type}

theorem mem_of_insertMany {k : String} {v : α} :
    ∀ {l : List (String × α)} {m : Std.HashMap String α},
      (m.insertMany l)[k]? = some v → (k, v) ∈ l ∨ m[k]? = some v
  | [], m, h => Or.inr (by simpa using h)
  | (k', v') :: l, m, h => by
    rw [Std.HashMap.insertMany_cons] at h
    rcases mem_of_insertMany h with hl | hm
    · exact Or.inl (List.mem_cons_of_mem _ hl)
    · rw [Std.HashMap.getElem?_insert] at hm
      split_ifs at hm with hk
      · rw [← eq_of_beq hk, ← Option.some.inj hm]
        exact Or.inl List.mem_cons_self
      · exact Or.inr hm

/-- The content of a cell, if no label is listed twice. -/
theorem cell_ofCells_of_mem [Content α] {cells : OrderedMap String α}
    (hlabels : cells.Pairwise fun x y => (x.1 == y.1) = false) {l : String} {v : α}
    (h : (l, v) ∈ cells) : (ofCells cells).cell l = v := by
  have hcell : (ofCells cells).cell l =
      ((Std.HashMap.ofList cells)[l]?).getD Content.empty := rfl
  rw [hcell, Std.HashMap.getElem?_ofList_of_mem (beq_self_eq_true l) hlabels h, Option.getD_some]

end Source

namespace Sheet

variable {s : Sheet}

/-- A small grid with the given cells. -/
def small (cells : OrderedMap String Scalar) : Sheet where
  name := "Sheet"
  rows := 3
  cols := 3
  cells := cells
  rows_pos := by decide
  cols_pos := by decide

theorem formula_of_mem (hlabels : s.cells.Pairwise fun x y => (x.1 == y.1) = false)
    {l t : String} (h : (l, .text t) ∈ s.cells) (ht : (Scalar.text t).isFormula = true) :
    s.source.HasFormula l ∧ formulaAt s.source l = t := by
  have hcell : s.source.cell l = .text t := Source.cell_ofCells_of_mem hlabels h
  refine ⟨?_, ?_⟩
  · unfold Source.HasFormula
    rwa [hcell]
  · rw [Session.formulaAt, hcell, Content.textIn_text]

theorem mem_cells_of_hasFormula {l : String} (h : s.source.HasFormula l) :
    (l, s.source.cell l) ∈ s.cells := by
  have hcell : s.source.cell l = ((Std.HashMap.ofList s.cells)[l]?).getD .null := rfl
  unfold Source.HasFormula at h
  rw [hcell] at h ⊢
  cases hv : (Std.HashMap.ofList s.cells)[l]? with
  | none => rw [hv] at h; cases h
  | some v =>
    rw [Std.HashMap.ofList_eq_insertMany_empty] at hv
    exact (Source.mem_of_insertMany hv).resolve_right (by simp)

theorem hasFormula_text {src : Source} {l : String} (h : src.HasFormula l) :
    src.cell l = .text (formulaAt src l) := by
  unfold Source.HasFormula at h
  unfold Session.formulaAt
  cases hc : src.cell l with
  | text t => rfl
  | _ => rw [hc] at h; cases h

/-- A formula of a sheet whose numerals fit has a tree or is refused by the grammar. -/
theorem NumeralsFit.parsed_or_refused (hs : s.NumeralsFit) {l : String}
    (hl : s.source.HasFormula l) :
    (∃ e, Formula.ofText (formulaAt s.source l) = .ok e ∧ e.Parsed) ∨
      ∃ f, Formula.ofText (formulaAt s.source l) = .error f ∧ Formula.IsBadSyntax f := by
  have hmem := mem_cells_of_hasFormula hl
  have hform := hl
  unfold Source.HasFormula at hform
  rw [hasFormula_text hl] at hmem hform
  exact Formula.parsed_or_refused (hs l _ hmem hform)

theorem NumeralsFit.wellParsed (hs : s.NumeralsFit) : s.source.WellParsed := by
  intro l hl e he
  rcases hs.parsed_or_refused hl with ⟨e', he', hparsed⟩ | ⟨f, hf, -⟩
  · obtain rfl := Except.ok.inj (he.symm.trans he')
    exact hparsed
  · cases he.symm.trans hf

theorem mem_formulas_of_hasFormula {l : String} (hl : s.source.HasFormula l) :
    l ∈ s.source.formulas := by
  have hmem : (l, s.source.cell l) ∈ s.cells.filter (·.2.isFormula) :=
    List.mem_filter.mpr ⟨mem_cells_of_hasFormula hl, hl⟩
  exact List.mem_map.mpr ⟨_, hmem, rfl⟩

/-- **A sheet whose numerals fit is regular.** -/
theorem NumeralsFit.regular (hs : s.NumeralsFit) : s.source.Regular :=
  Source.regular_of_parsed (fun _ => mem_formulas_of_hasFormula) fun _ => hs.parsed_or_refused

end Sheet

/-! ### What the formulas of cells ask for -/

section

variable {src : Source} {c l : String} {known : Knowledge}

/-- What a cell takes from its formula is a value only if the tree comes to a scalar. -/
theorem resolve_inquiry {r : Except Fault Scalar} (h : (src.inquiry c).resolve known = some r) :
    ∃ x, (Formula.inquiry (formulaAt src c)).resolve known = some x ∧
      r = cellResult (formulaAt src c) x := by
  unfold Source.inquiry at h
  rw [Inquiry.resolve_map] at h
  obtain ⟨x, hx, rfl⟩ := Option.map_eq_some_iff.mp h
  exact ⟨x, hx, rfl⟩

theorem asked_inquiry (src : Source) (c : String) (known : Knowledge) :
    (src.inquiry c).asked known = (Formula.inquiry (formulaAt src c)).asked known :=
  Inquiry.asked_map known _ _

/-- A formula that comes to a value has asked for all cells of its eager references. -/
theorem mem_asked_of_eagerReference {e : Expr} (he : Formula.ofText (formulaAt src c) = .ok e)
    {r : Reference} (hr : r ∈ e.eagerReferences) (hl : r.Covers l) {v : Scalar}
    (h : (src.inquiry c).resolve known = some (.ok v)) : l ∈ (src.inquiry c).asked known := by
  obtain ⟨labels, hlabels, hmem⟩ := hl
  obtain ⟨x, hx, hv⟩ := resolve_inquiry h
  rw [asked_inquiry, Formula.inquiry_of_tree he]
  rw [Formula.inquiry_of_tree he] at hx
  cases x with
  | error f => cases hv
  | ok w =>
    obtain ⟨labels', hlabels', hsub⟩ :=
      Expr.meets_evaluate e hx r (Expr.mem_eagerMentions_of_mem_eagerReferences hr)
    obtain rfl := Except.ok.inj (hlabels.symm.trans hlabels')
    exact hsub hmem

/-- **A formula that comes to a value has asked for all that is read ahead.** -/
theorem ahead_subset_asked {v : Scalar} (h : (src.inquiry c).resolve known = some (.ok v)) :
    src.ahead c ⊆ (src.inquiry c).asked known := by
  intro l hl
  obtain ⟨e, he, r, hr, hcovers⟩ := mem_ahead hl
  exact mem_asked_of_eagerReference he hr hcovers h

/-- A cell that the tree of the formula at `c` refers to, ranges expanded. -/
def Source.RefersTo (src : Source) (c l : String) : Prop :=
  src.HasFormula c ∧ ∃ e, Formula.ofText (formulaAt src c) = .ok e ∧ ∃ r ∈ e.references, r.Covers l

/-- **What a formula asks for, whatever the values are, it refers to.** -/
theorem Source.HasFormula.asksOnly (hc : src.HasFormula c) :
    (src.inquiry c).AsksOnly (src.RefersTo c) := by
  refine asksOnly_inquiry fun e he => Expr.asksOnly_evaluate e fun r hr l hl => ?_
  exact ⟨hc, e, he, (Formula.plainCells_of_ofText he).covers_references hr hl⟩

theorem Source.HasFormula.refersTo_of_mem_asked (hc : src.HasFormula c)
    (h : l ∈ (src.inquiry c).asked known) : src.RefersTo c l :=
  hc.asksOnly.of_mem_asked h

/-- What is read before a formula runs, it refers to as well. -/
theorem Source.HasFormula.refersTo_of_mem_ahead (hc : src.HasFormula c) (h : l ∈ src.ahead c) :
    src.RefersTo c l := by
  obtain ⟨e, he, r, hr, hl⟩ := mem_ahead h
  have hmention := Expr.mem_mentions_of_mem_eagerMentions
    (Expr.mem_eagerMentions_of_mem_eagerReferences hr)
  exact ⟨hc, e, he, (Formula.plainCells_of_ofText he).covers_references hmention hl⟩

end

end Spreadsheet
