import Spreadsheet.Proofs.Session.Erasure
import Spreadsheet.Proofs.Session.Similarity
import Spreadsheet.Proofs.Session.Recomputation

/-! # Cells that are not read

A reading that records no failure depends on the cells that are remembered after it, and on no
other: all cells that formulas read ahead are asked for by formulas that come to values
(`ahead_subset_asked`), so they are remembered too. What is done over one sheet is done over any
other sheet that holds the same in these cells, whatever it holds elsewhere (`Does.performs`); so
both readings find the same (`after_unread`). -/

namespace Spreadsheet

namespace Session

/-! ### Cells that hold the same -/

section

variable {src src' : Source} {l : String}

theorem hasFormula_congr (h : src'.cell l = src.cell l) :
    src'.HasFormula l ↔ src.HasFormula l := by
  unfold Source.HasFormula
  rw [h]

theorem formulaAt_congr (h : src'.cell l = src.cell l) : formulaAt src' l = formulaAt src l := by
  unfold formulaAt
  rw [h]

theorem inquiry_congr (h : src'.cell l = src.cell l) : src'.inquiry l = src.inquiry l := by
  unfold Source.inquiry
  rw [formulaAt_congr h]

theorem literal_congr (h : src'.cell l = src.cell l) : src'.literal l = src.literal l := by
  unfold Source.literal
  rw [h]

theorem isSettled_congr (h : src'.cell l = src.cell l) (s : State) :
    isSettled src' s l = isSettled src s l := by
  unfold isSettled
  rw [h]

end

/-! ### The same over another sheet -/

/-- The errand that succeeds in a task. -/
def Task.errand : Task → Errand
  | prefetch labels => .prefetch labels (.ok ())
  | compute key => .compute key (.ok ())
  | run q r => .run q r
  | read key v => .read key (.ok v)

/-- What the task looks at ahead is remembered in the end, and it asks for cells by the labels under
which they are kept. -/
def Task.Found (final : State) : Task → Prop
  | prefetch labels => ∀ l ∈ labels, l ∈ final.memo
  | run q _ => q.AsksOnly fun l => Label.normalize l = l
  | compute _ | read _ _ => True

variable {src src' : Source} {s t final : State}

/-- **What is done over one source is done over another** that holds the same in all cells that are
remembered in the end. -/
theorem Does.performs (hsrc : src.Regular)
    (hahead : ∀ c, Computed src final c → ∀ l ∈ src.ahead c, l ∈ final.memo)
    (hagree : ∀ l ∈ final.memo, src'.cell l = src.cell l) {task : Task}
    (h : Does src src.ahead task s t) (hfound : task.Found final)
    (ht : ∀ l ∈ t.memo, l ∈ final.memo) : ∃ ran, Performs src' task.errand s ran t := by
  induction h with
  | nothing => exact ⟨[], .nothing⟩
  | @skip l ls s t hl _ ih =>
    obtain ⟨hl', hls⟩ := List.forall_mem_cons.mp hfound
    obtain ⟨ran, hran⟩ := ih hls ht
    exact ⟨ran, .skip ((isSettled_congr (hagree l hl') s).trans hl) hran⟩
  | visit _ h ih ih' =>
    obtain ⟨ran, hran⟩ := ih trivial fun l hl => ht l (h.grows.memo l hl)
    obtain ⟨ran', hran'⟩ := ih' (List.forall_mem_cons.mp hfound).2 ht
    exact ⟨_, .visit hran hran'⟩
  | @compute key r s t u hkey hp hq ih ih' =>
    have hform := (isSettled_eq_false_iff.mp hkey).1
    have hmem (l : String) (hl : l = key ∨ l ∈ u.memo) : l ∈ final.memo := by
      refine ht l ?_
      rw [memo_unmark, memo_settle, Std.HashMap.mem_insert, beq_iff_eq]
      exact hl.imp_left Eq.symm
    have hcell := hagree key (hmem key (Or.inl rfl))
    have hdeps : dependencies (formulaAt src' key) = .ok (src.ahead key) := by
      rw [formulaAt_congr hcell, hsrc.dependencies key hform]
    obtain ⟨ran, hran⟩ := ih (hahead key ⟨hform, hmem key (Or.inl rfl)⟩) fun l hl =>
      hmem l (Or.inr (hq.grows.memo l hl))
    obtain ⟨ran', hran'⟩ := ih' (hsrc.normal key hform) fun l hl => hmem l (Or.inr hl)
    rw [← inquiry_congr hcell] at hran'
    exact ⟨_, .compute ((isSettled_congr hcell s).trans hkey) hdeps hran hran'⟩
  | answer => exact ⟨[], .answer⟩
  | @ask l next v r s t u _ h ih ih' =>
    obtain ⟨ran, hran⟩ := ih trivial fun l hl => ht l (h.grows.memo l hl)
    obtain ⟨ran', hran'⟩ := ih' (hfound.2 v) ht
    have hread : Performs src' (.read (Label.normalize l) (.ok v)) s ran t := by
      rw [hfound.1]
      exact hran
    exact ⟨_, .ask hread hran'⟩
  | remembered hv => exact ⟨[], .remembered hv⟩
  | closed hm hr => exact ⟨[], .closed hm hr⟩
  | @literal key s hm hr hf =>
    have hcell := hagree key (ht key Std.HashMap.mem_insert_self)
    rw [← literal_congr hcell]
    exact ⟨[], .literal hm hr fun h => hf ((hasFormula_congr hcell).mp h)⟩
  | start _ hv ih =>
    obtain ⟨ran, hran⟩ := ih trivial ht
    exact ⟨ran, .start hran hv⟩

/-- In a session without failure all that the computed cells read ahead is remembered. -/
theorem Sound.mem_memo_of_ahead (hs : Sound src s) (hrun : s.running = []) (herr : s.errors = [])
    {c : String} (hc : Computed src s c) : ∀ l ∈ src.ahead c, l ∈ s.memo := by
  intro l hl
  obtain ⟨v, hv⟩ := exists_of_mem_memo hc.2
  obtain ⟨r, hr, hrecorded⟩ := hs.formula c v hc.1 hv
  rw [herr] at hrecorded
  obtain rfl : r = .ok v := hrecorded
  obtain ⟨w, hw⟩ := Inquiry.known_of_mem_asked hr (ahead_subset_asked hr hl)
  exact mem_of_memo (mem_memo_of_known hrun hw)

/-- **Unread cells do not matter.** If reading a cell in a new session records no failure, it finds
the same value over any other sheet that holds the same in the cells remembered afterwards, whatever
that sheet holds elsewhere; it records no failure there, and remembers the same cells with the same
values. -/
theorem after_unread {sheet other : Sheet} (hfit : sheet.NumeralsFit) {label : String}
    (herr : (after sheet [.cell label]).errors = [])
    (hagree : ∀ l ∈ (after sheet [.cell label]).memo, other.source.cell l = sheet.source.cell l) :
    (∃ v, answer sheet {} label = .ok v ∧ answer other {} label = .ok v) ∧
      (after other [.cell label]).errors = [] ∧
      ∀ l : String, (after other [.cell label]).memo[l]? = (after sheet [.cell label]).memo[l]? := by
  obtain ⟨hs, hrun⟩ := after_sound hfit [.cell label]
  obtain ⟨v, t, hv, ht⟩ := read_does hfit.regular label {}
  have hafter : after sheet [.cell label] = t := congrArg Prod.snd (hv.bind (gives_pure () t))
  rw [hafter] at hs hrun herr hagree ⊢
  obtain ⟨ran, hran⟩ := ht.performs hfit.regular (fun c hc => hs.mem_memo_of_ahead hrun herr hc)
    hagree trivial fun _ h => h
  obtain ⟨r, ran', t', hr, ht'⟩ :=
    read_performs (fun _ => Sheet.mem_formulas_of_hasFormula (s := other)) label {}
  obtain ⟨he, -, rfl⟩ := hran.det ht' rfl
  obtain rfl : .ok v = r := (Errand.read.inj he).2
  have hother : after other [.cell label] = t := congrArg Prod.snd (hr.bind (gives_pure () t))
  rw [hother]
  exact ⟨⟨v, congrArg Prod.fst hv, congrArg Prod.fst hr⟩, herr, fun _ => rfl⟩

/-- A sheet in which the formula in A1 does not read B1, as it stands in the other branch. -/
def guarded (formula : String) : Sheet :=
  .small [("A1", .text "=IF(1,2,B1)"), ("B1", .text formula)]

theorem guarded_cell (formula : String) :
    (guarded formula).source.cell "A1" = .text "=IF(1,2,B1)" :=
  Source.cell_ofCells_of_mem (by simp [guarded, Sheet.small]) List.mem_cons_self

/-- Reading A1 computes no other cell. -/
theorem guarded_after (hfit : (guarded "=3").NumeralsFit) : after (guarded "=3") [.cell "A1"] =
    (settle "A1" (.ok (.int 2)) (State.mark "A1" {})).2.unmark "A1" := by
  obtain ⟨hform, hat⟩ := Sheet.formula_of_mem (s := guarded "=3") (l := "A1") (t := "=IF(1,2,B1)")
    (by decide) (by decide) rfl
  have htree : Formula.ofText "=IF(1,2,B1)" =
      .ok (.call "IF" [.literal (.int 1), .literal (.int 2), .cell "B1"]) := rfl
  have hif : Expr.isConditional "IF" = true := by decide
  have hahead : (guarded "=3").source.ahead "A1" = [] := by
    unfold Source.ahead dependencies
    rw [hat, htree]
    simp [Expr.eagerReferences, Expr.collect, Expr.eagerArguments, hif, expand]
  have hinquiry : (guarded "=3").source.inquiry "A1" = .answer (.ok (.int 2)) := by
    unfold Source.inquiry
    rw [hat, Formula.inquiry_of_tree htree, Expr.inquiry, Expr.evaluate, if_pos hif]
    rfl
  have hfirst : Does (guarded "=3").source (guarded "=3").source.ahead
      (.prefetch ((guarded "=3").source.ahead "A1")) (State.mark "A1" {}) (State.mark "A1" {}) := by
    rw [hahead]
    exact .nothing
  have hrun : Does (guarded "=3").source (guarded "=3").source.ahead
      (.run ((guarded "=3").source.inquiry "A1") (.ok (.int 2))) (State.mark "A1" {})
      (State.mark "A1" {}) := by
    rw [hinquiry]
    exact .answer
  have hcompute := Does.compute (isSettled_eq_false_iff.mpr ⟨hform, by simp, by simp⟩) hfirst hrun
  have hread := Does.start hcompute (by rw [memo_unmark, memo_settle_self])
  obtain ⟨v, s, hv, h⟩ := read_does hfit.regular "A1" {}
  have hs : after (guarded "=3") [.cell "A1"] = s := congrArg Prod.snd (hv.bind (gives_pure () s))
  rw [hs, (h.det hread (show Label.normalize "A1" = "A1" by decide)).2]

/-- The cell that is not read may as well read itself. -/
theorem after_unread_guarded :
    (guarded "=3").NumeralsFit ∧ (after (guarded "=3") [.cell "A1"]).errors = [] ∧
      (∀ l ∈ (after (guarded "=3") [.cell "A1"]).memo,
        (guarded "=B1").source.cell l = (guarded "=3").source.cell l) ∧
      (∃ v, answer (guarded "=3") {} "A1" = .ok v ∧ answer (guarded "=B1") {} "A1" = .ok v) ∧
      (after (guarded "=B1") [.cell "A1"]).errors = [] ∧
      ∀ l : String, (after (guarded "=B1") [.cell "A1"]).memo[l]? =
        (after (guarded "=3") [.cell "A1"]).memo[l]? := by
  have hfit : (guarded "=3").NumeralsFit := Sheet.numeralsFit_of_short (by decide)
  have herr : (after (guarded "=3") [.cell "A1"]).errors = [] := by
    rw [guarded_after hfit]
    rfl
  have hagree : ∀ l ∈ (after (guarded "=3") [.cell "A1"]).memo,
      (guarded "=B1").source.cell l = (guarded "=3").source.cell l := by
    intro l hl
    rw [guarded_after hfit, memo_unmark, memo_settle, Std.HashMap.mem_insert] at hl
    obtain rfl : "A1" = l := by simpa using hl
    rw [guarded_cell, guarded_cell]
  exact ⟨hfit, herr, hagree, after_unread hfit herr hagree⟩

end Session

end Spreadsheet
