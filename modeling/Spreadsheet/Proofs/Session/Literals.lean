import Spreadsheet.Proofs.Session.Preservation

/-! # Cells without formulas

Whatever formulas a sheet holds, and however its readings end, a session keeps cells without
formulas out of its failures: what is remembered of such a cell is its literal, it is never marked,
and no failure is recorded of it (`LiteralsKept`). So it can be read in every state that a session
comes to, and reads as its literal (`gives_read_literal`). -/

namespace Spreadsheet.Session

variable {γ : Type} [Content γ]

/-- **Cells without formulas** are remembered with their literals, do not run and do not fail. -/
structure LiteralsKept (src : Source γ) (s : State γ) : Prop where
  memo : ∀ l v, ¬ src.HasFormula l → s.memo[l]? = some v → v = src.literal l
  running : ∀ l ∈ s.running, src.HasFormula l
  errors : ∀ l e, s.errors.get? l = some e → src.HasFormula l

variable {src : Source γ} {s t : State γ} {key label : String}

theorem literalsKept_empty (src : Source γ) : LiteralsKept src {} where
  memo _ _ _ h := by simp at h
  running _ h := by cases h
  errors _ _ h := by cases h

namespace LiteralsKept

theorem mark (h : LiteralsKept src s) (hkey : src.HasFormula key) :
    LiteralsKept src (s.mark key) where
  memo := h.memo
  running := List.forall_mem_cons.mpr ⟨hkey, h.running⟩
  errors := h.errors

theorem unmark (h : LiteralsKept src s) : LiteralsKept src (s.unmark key) where
  memo := h.memo
  running l hl := h.running l (List.mem_of_mem_filter hl)
  errors := h.errors

theorem fail (h : LiteralsKept src s) (hkey : src.HasFormula key) (e : CellError) :
    LiteralsKept src (s.fail key e) where
  memo := h.memo
  running := h.running
  errors l e' hl := by
    by_cases hlk : l = key
    · exact hlk ▸ hkey
    · exact h.errors l e' ((OrderedMap.get?_insert_of_ne hlk _ _).symm.trans hl)

theorem remember {v : γ} (h : LiteralsKept src s)
    (hv : ¬ src.HasFormula key → v = src.literal key) :
    LiteralsKept src (s.remember key v) where
  memo l w hl hw := by
    rw [State.remember, Std.HashMap.getElem?_insert] at hw
    split_ifs at hw with hk
    · obtain rfl := eq_of_beq hk
      exact (Option.some.inj hw).symm.trans (hv hl)
    · exact h.memo l w hl hw
  running := h.running
  errors := h.errors

theorem settle (h : LiteralsKept src s) (hkey : src.HasFormula key) (r : Except Fault γ) :
    LiteralsKept src (settle key r s).2 := by
  cases r with
  | ok v => exact h.remember fun hl => absurd hkey hl
  | error f => exact (h.fail hkey _).remember fun hl => absurd hkey hl

theorem unmarkAbove (h : LiteralsKept src s) (stack : List Frame) :
    LiteralsKept src (unmarkAbove stack s) := by
  unfold Session.unmarkAbove
  induction stack.dropLast generalizing s with
  | nil => exact h
  | cons frame rest ih => exact ih h.unmark

end LiteralsKept

/-! ### Reading a cell -/

section

variable {evaluate : String → String → StateM (State γ) γ}

/-- Running the formulas of cells keeps the cells without formulas as they are. -/
def PreservesRunning (src : Source γ) (evaluate : String → String → StateM (State γ) γ) : Prop :=
  ∀ key formula s, src.HasFormula key → LiteralsKept src s →
    LiteralsKept src (StateT.run (evaluate key formula) s).2

theorem preservesRunning_evaluateCell {read : String → RunOver γ γ}
    (hread : ∀ l, Preserves (LiteralsKept src) (read l)) :
    PreservesRunning src (evaluateCell read) :=
  fun _ formula s hkey hs => (preserves_formulaValue hread formula s hs).settle hkey _

theorem PreservesRunning.walk (heval : PreservesRunning src evaluate) :
    ∀ (steps : Nat) (stack : List Frame), (∀ frame ∈ stack, src.HasFormula frame.label) →
      Preserves (LiteralsKept src) (walk src evaluate steps stack)
  | 0, [], _ | _ + 1, [], _ => preserves_pure ()
  | 0, _ :: _, _ => preserves_result (.error .nestedTooDeep)
  | steps + 1, frame :: below, hstack => by
    obtain ⟨hframe, hbelow⟩ := List.forall_mem_cons.mp hstack
    unfold Session.walk
    refine preserves_get_bind fun s hs => ?_
    cases hd : frame.pending.dropWhile (isSettled src s) with
    | nil =>
      dsimp only
      split
      · exact hs
      · refine preserves_lift_bind (heval _ _ s hframe hs) fun _ t ht => ?_
        exact heval.walk steps below hbelow _ ht.unmark
    | cons label pending =>
      have hlabel := (isSettled_eq_false_iff.mp (not_settled_of_dropWhile hd)).1
      refine preserves_modify_bind ?_
      cases dependencies (formulaAt src label) with
      | ok labels =>
        refine heval.walk steps _ ?_ _ (hs.mark hlabel)
        exact List.forall_mem_cons.mpr ⟨hlabel, List.forall_mem_cons.mpr ⟨hframe, hbelow⟩⟩
      | error f => exact (hs.mark hlabel).unmarkAbove _

theorem PreservesRunning.compute (heval : PreservesRunning src evaluate) (steps : Nat)
    (formula : String) (hkey : src.HasFormula key) :
    Preserves (LiteralsKept src) (compute src steps evaluate key formula) := by
  intro s hs
  have hcomputed : Preserves (LiteralsKept src) (do
      prefetch src steps evaluate key formula
      evaluate key formula) := by
    refine Preserves.bind ?_ fun _ => ?_
    · exact (preserves_result _).bind fun labels =>
        heval.walk steps [⟨key, labels⟩] (List.forall_mem_singleton.mpr hkey)
    · exact fun s hs => heval key formula s hkey hs
  exact (hcomputed _ (hs.mark hkey)).unmark

theorem preserves_look {start : String → String → RunOver γ γ}
    (hstart : ∀ key formula, src.HasFormula key → Preserves (LiteralsKept src) (start key formula))
    (label : String) : Preserves (LiteralsKept src) (look src start label) := by
  intro s hs
  rcases look_cases src s (Label.normalize label) with
    ⟨v, hv⟩ | ⟨hm, hr⟩ | ⟨hm, hr, hf⟩ | hkey
  · rw [(gives_look_remembered hv : StateT.run _ _ = _)]
    exact hs
  · rw [(gives_look_closed hm hr : StateT.run _ _ = _)]
    exact hs.fail (hs.running _ hr) _
  · rw [(gives_look_literal hm hr hf : StateT.run _ _ = _)]
    exact hs.remember fun _ => rfl
  · have hrun := gives_look_compute hkey (rfl : Gives (start _ _) s _ _)
    rw [(hrun : StateT.run _ _ = _)]
    exact hstart _ _ (isSettled_eq_false_iff.mp hkey).1 s hs

theorem preserves_start (src : Source γ) : ∀ (n : Nat) (key formula : String), src.HasFormula key →
    Preserves (LiteralsKept src) (start src n key formula)
  | 0, _, _, _ => preserves_result (.error .nestedTooDeep)
  | n + 1, _, formula, hkey =>
    (preservesRunning_evaluateCell (preserves_look (preserves_start src n))).compute _ formula hkey

end

/-- **Reading a cell** keeps the cells without formulas as they are, on any sheet. -/
theorem preserves_read (src : Source γ) (label : String) :
    Preserves (LiteralsKept src) (read src label) :=
  preserves_look (preserves_start src _) label

theorem Gives.literalsKept {r : Except Fault γ} (h : Gives (read src label) s r t)
    (hs : LiteralsKept src s) : LiteralsKept src t := by
  have hkept := preserves_read src label s hs
  rwa [(h : StateT.run _ _ = _)] at hkept

/-- In every state that a session comes to, cells without formulas are as they should be. -/
theorem after_literalsKept (src : Source γ) (rows cols : Nat) (requests : List Request) :
    LiteralsKept src (afterOver src rows cols requests) :=
  after_preserves (preserves_read src) (literalsKept_empty src) rows cols requests

/-- **A cell without a formula reads as its literal.** -/
theorem gives_read_literal (hs : LiteralsKept src s)
    (hl : ¬ src.HasFormula (Label.normalize label)) :
    ∃ t, Gives (read src label) s (.ok (src.literal (Label.normalize label))) t := by
  rcases look_cases src s (Label.normalize label) with ⟨v, hv⟩ | ⟨-, hr⟩ | ⟨hm, hr, -⟩ | hkey
  · exact ⟨s, hs.memo _ v hl hv ▸ gives_look_remembered hv⟩
  · exact absurd (hs.running _ hr) hl
  · exact ⟨_, gives_look_literal hm hr hl⟩
  · exact absurd (isSettled_eq_false_iff.mp hkey).1 hl

/-- **A cell without a formula reads as its literal** in every session. -/
theorem answer_literal {sheet : Sheet} (requests : List Request) {label : String}
    (hl : ¬ sheet.source.HasFormula (Label.normalize label)) :
    answer sheet (after sheet requests) label =
      .ok (sheet.source.literal (Label.normalize label)) := by
  obtain ⟨t, ht⟩ := gives_read_literal (after_literalsKept sheet.source _ _ requests) hl
  exact congrArg Prod.fst ht

end Spreadsheet.Session
