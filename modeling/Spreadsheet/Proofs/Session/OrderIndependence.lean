import Spreadsheet.Proofs.Session.Grounds

/-! # Independence of the order of requests

If a session comes through without failure, every cell that it has computed rests on cells that were
computed before (`Founded`): a cell that was read while it ran would have failed. So what it has
found is a solution, and any other session over the sheet, in whatever order it goes and whatever it
reads ahead, agrees with it (`after_order_independent`). -/

namespace Spreadsheet.Session

open Relation (TransGen)

/-- Over what is known, the cell rests on others that do not rest on it. -/
inductive Founded (src : Source) (known : Knowledge) : String → Prop
  | literal {l} (h : ¬ src.HasFormula l) : Founded src known l
  | formula {c r} (hr : (src.inquiry c).resolve known = some r)
      (h : ∀ l ∈ (src.inquiry c).asked known, Founded src known l) : Founded src known c

variable {src : Source} {ahead : String → List String} {s t u : State} {key : String}

theorem Founded.acyclic {c : String} (h : Founded src s.known c) (hc : src.HasFormula c) :
    ¬ TransGen (ReadsIn src s) c c := by
  induction h with
  | literal h => exact absurd hc h
  | formula _ _ ih =>
    intro hloop
    obtain ⟨l, hread, hback⟩ := Relation.TransGen.head'_iff.mp hloop
    exact ih l hread.2 hread.1 (.tail' hback hread)

/-! ### Sessions without failure -/

/-- Everything remembered rests on what was remembered before. -/
def AllFounded (src : Source) (s : State) : Prop :=
  ∀ c ∈ s.memo, Founded src s.known c

/-- Without failure, what is grounded rests on other cells alone. -/
theorem Grounded.founded (herr : s.errors = []) {c : String} (h : Grounded src s c) :
    Founded src s.known c := by
  induction h with
  | literal h => exact .literal h
  | failed h =>
    obtain ⟨e, he⟩ := h
    rw [herr] at he
    cases he
  | formula hr _ ih => exact .formula hr ih

/-- **Without failure, what a session computes rests on what it computed before.** -/
theorem Answers.founded {answers : List (String × Scalar)} (h : Answers src ahead answers s t)
    (hs : Sound src s) (hg : AllGrounded src s) (ht : t.errors = []) : AllFounded src t :=
  fun c hc => (h.grounded hs hg c hc).founded ht

/-- **A session without failure is a solution**, for sessions that read ahead and for those that
do not. -/
theorem Answers.solves {answers : List (String × Scalar)} (h : Answers src ahead answers {} s)
    (herr : s.errors = []) {ahead' : String → List String}
    (hahead : ∀ c, ahead' c ⊆ src.ahead c) :
    Solves src ahead' (s.valueAt src) (Computed src s) := by
  have hs := (h.sound (sound_empty src)).1
  have hfounded := h.founded (sound_empty src) (allGrounded_empty src) herr
  refine hs.solves h.grows.running (fun c => by simp [herr, OrderedMap.get?]) ?_
    fun c hc => (hfounded c hc.2).acyclic hc.1
  intro c l hc _ hl
  obtain ⟨v, r, -, hr, hrecorded⟩ := hs.answered hc
  rw [herr] at hrecorded
  obtain rfl : r = .ok v := hrecorded
  exact ahead_subset_asked hr (hahead c hl)

theorem errors_eq_nil_of_get? {m : OrderedMap String CellError} (h : ∀ c, m.get? c = none) :
    m = [] := by
  cases m with
  | nil => rfl
  | cons entry m =>
    have := h entry.1
    simp [OrderedMap.get?] at this

/-- **A session that computes what another has computed without failure** comes to the same. -/
theorem Answers.agrees_errorFree {ahead' : String → List String} {xs ys : List (String × Scalar)}
    (h : Answers src ahead xs {} s) (herr : s.errors = []) (h' : Answers src ahead' ys {} t)
    (hahead : ∀ c, ahead' c ⊆ src.ahead c)
    (hcover : ∀ y ∈ ys, src.HasFormula y.1 → y.1 ∈ s.memo) :
    t.errors = [] ∧ Agrees src (s.valueAt src) (Computed src s) t ∧
      ∀ y ∈ ys, y.2 = s.valueAt src y.1 := by
  have hsolves := h.solves herr hahead
  obtain ⟨hagrees, hvalues⟩ := h'.agrees hsolves rfl (sound_empty src) (agrees_empty _ _ _)
    fun y hy hform => ⟨hform, hcover y hy hform⟩
  refine ⟨errors_eq_nil_of_get? fun c => ?_, hagrees, hvalues⟩
  refine Option.eq_none_iff_forall_ne_some.mpr fun e he => ?_
  obtain ⟨hform, hmem, f, hf, -⟩ := (hagrees.errors c e).mp he
  -- a failing formula would have failed in the first session as well
  have hs := (h.sound (sound_empty src)).1
  obtain ⟨v, hv⟩ := exists_of_mem_memo hmem
  obtain ⟨w, r, -, hr, hrecorded⟩ := hs.answered ((hagrees.memo c v hv).2 hform)
  rw [Inquiry.answerBy_of_resolve (known_extends_valueAt s) hr] at hf
  rw [herr, hf] at hrecorded
  cases hrecorded

/-- After a session in which all formula cells are known without failure, every label has the value
of the solution. -/
theorem answer_eq {sheet : Sheet} (hsrc : sheet.source.Regular)
    {value : String → Scalar} {cells : String → Prop}
    (hcells : Solves sheet.source sheet.source.ahead value cells)
    (hall : ∀ c, sheet.source.HasFormula c → cells c) (hs : Sound sheet.source s)
    (hrun : s.running = []) (ha : Agrees sheet.source value cells s) (label : String) :
    answer sheet s label = .ok (value (Label.normalize label)) := by
  obtain ⟨v, t, hv, ht⟩ := read_does hsrc label s
  obtain ⟨-, rfl⟩ := ht.agrees hcells hs ha fun hl =>
    ⟨hall _ hl, fun p hp => by rw [hrun] at hp; cases hp⟩
  exact congrArg Prod.fst hv

/-- **Results without failure do not depend on the order of requests.** If two sessions over a
sheet have computed all its formula cells, one is without failure only if the other is, and then
every label has the same value in both. -/
theorem after_order_independent {sheet : Sheet} (hfit : sheet.NumeralsFit)
    (first second : List Request)
    (hfirst : ∀ c, sheet.source.HasFormula c → c ∈ (after sheet first).memo)
    (hsecond : ∀ c, sheet.source.HasFormula c → c ∈ (after sheet second).memo) :
    ((after sheet first).errors = [] ↔ (after sheet second).errors = []) ∧
      ((after sheet first).errors = [] → ∀ label, ∃ v,
        answer sheet (after sheet first) label = .ok v ∧
          answer sheet (after sheet second) label = .ok v) := by
  obtain ⟨xs, hxs⟩ := answers_after hfit.regular first
  obtain ⟨ys, hys⟩ := answers_after hfit.regular second
  have hsub : ∀ c, sheet.source.ahead c ⊆ sheet.source.ahead c := fun _ => List.Subset.refl _
  refine ⟨⟨fun h => (hxs.agrees_errorFree h hys hsub fun y _ => hfirst y.1).1,
    fun h => (hys.agrees_errorFree h hxs hsub fun x _ => hsecond x.1).1⟩, fun h label => ?_⟩
  have hsolves := hxs.solves h hsub
  have hall : ∀ c, sheet.source.HasFormula c → Computed sheet.source (after sheet first) c :=
    fun c hc => ⟨hc, hfirst c hc⟩
  obtain ⟨hs, hrun⟩ := after_sound hfit first
  obtain ⟨ht, hrun'⟩ := after_sound hfit second
  refine ⟨_, answer_eq hfit.regular hsolves hall hs hrun (hs.agrees_self hrun fun c => ?_) label,
    answer_eq hfit.regular hsolves hall ht hrun' ?_ label⟩
  · simp [h, OrderedMap.get?]
  · exact (hxs.agrees_errorFree h hys hsub fun y _ => hfirst y.1).2.1

/-- A sheet of two formulas, the first of which reads the second. -/
def chained : Sheet :=
  .small [("A1", .text "=B1+1"), ("B1", .text "=2")]

theorem chained_fits : chained.NumeralsFit := Sheet.numeralsFit_of_short (by decide)

theorem mem_memo_chained {requests : List Request} (hall : Request.all ∈ requests) (c : String)
    (hc : chained.source.HasFormula c) : c ∈ (after chained requests).memo := by
  have hkeys : ∀ c ∈ chained.cells.map Prod.fst, Label.normalize c = c := by decide
  have hmem := mem_memo_of_all chained_fits.regular hall (Sheet.mem_formulas_of_hasFormula hc)
  rwa [hkeys c (List.mem_map_of_mem (Sheet.mem_cells_of_hasFormula hc))] at hmem

theorem after_order_independent_chained :
    ((after chained [.all]).errors = [] ↔
      (after chained [.cell "b1", .grid "#", .all]).errors = []) ∧
    ((after chained [.all]).errors = [] → ∀ label, ∃ v,
      answer chained (after chained [.all]) label = .ok v ∧
        answer chained (after chained [.cell "b1", .grid "#", .all]) label = .ok v) :=
  after_order_independent chained_fits _ _ (mem_memo_chained (by simp)) (mem_memo_chained (by simp))

end Spreadsheet.Session
