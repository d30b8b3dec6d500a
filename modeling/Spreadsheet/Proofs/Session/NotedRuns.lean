import Spreadsheet.Session.Noted
import Spreadsheet.Proofs.Session.Errands

/-! # What noting sessions do

A session that notes the formulas it runs does what the relation `Performs` says, and notes the
cells that the relation lists, in their order. Bounds that are large enough are never met.

* `Notes`: what a computation comes to and notes.
* `Unwinding`: what a walk does from a stack on.
* `readNoted_performs`: reading a cell comes to an end, and what it does is in the relation. -/

namespace Spreadsheet.Session

variable {src : Source} {s t u : State} {key : String} {ran : List String}

/-! ### Computations that note cells -/

/-- The computation, started in `s`, comes to `r`, notes the cells `ran`, and leaves `t`. -/
def Notes {α : Type} (x : NotedRun α) (s : State) (r : Except Fault α) (ran : List String)
    (t : State) : Prop :=
  ∀ before, StateT.run (StateT.run x.run before) s = ((r, before ++ ran), t)

section Notes

variable {α β : Type} {x : NotedRun α} {f : α → NotedRun β} {ran' : List String}

theorem notes_result (r : Except Fault α) (s : State) :
    Notes (pureResult r : NotedRun α) s r [] s := fun before => by
  rw [List.append_nil]
  rfl

theorem notes_pure (a : α) (s : State) : Notes (pure a : NotedRun α) s (.ok a) [] s :=
  notes_result (.ok a) s

theorem notes_modify (g : State → State) (s : State) :
    Notes (modifyThe State g : NotedRun Unit) s (.ok ()) [] (g s) := fun before => by
  rw [List.append_nil]
  rfl

theorem notes_get (s : State) : Notes (getThe State : NotedRun State) s (.ok s) [] s :=
  fun before => by
    rw [List.append_nil]
    rfl

theorem notes_lift {y : Noting α} {a : α}
    (h : ∀ before, StateT.run (StateT.run y before) s = ((a, before ++ ran), t)) :
    Notes (liftM y : NotedRun α) s (.ok a) ran t := by
  intro before
  show StateT.run (StateT.run (ExceptT.run (ExceptT.lift y)) before) s = _
  rw [ExceptT.run_lift, StateT.run_map, StateT.run_map, h before]
  rfl

theorem Notes.bind {a : α} {r : Except Fault β} (hx : Notes x s (.ok a) ran t)
    (hf : Notes (f a) t r ran' u) : Notes (x >>= f) s r (ran ++ ran') u := by
  intro before
  rw [ExceptT.run_bind, StateT.run_bind, StateT.run_bind, hx before, ← List.append_assoc]
  exact hf (before ++ ran)

/-- What notes nothing itself leaves it to the rest. -/
theorem Notes.then {a : α} {r : Except Fault β} (hx : Notes x s (.ok a) [] t)
    (hf : Notes (f a) t r ran u) : Notes (x >>= f) s r ran u :=
  hx.bind hf

theorem Notes.bind_error {e : Fault} (hx : Notes x s (.error e) ran t) :
    Notes (x >>= f) s (.error e) ran t := by
  intro before
  rw [ExceptT.run_bind, StateT.run_bind, StateT.run_bind, hx before]
  rfl

end Notes

/-! ### Formulas -/

variable {n : Nat}

variable (src) in
/-- The reader reads as the relation says while at most `n` formulas are to be started. -/
def PerformsReads (n : Nat) (read : String → NotedRun Scalar) : Prop :=
  ∀ l s, fresh src s ≤ n → ∃ r ran t,
    Notes (read l) s r ran t ∧ Performs src (.read (Label.normalize l) r) s ran t

variable (src) in
/-- The formula at a cell is noted, run and settled as the relation says while at most `n` formulas
are to be started. -/
def PerformsRuns (n : Nat) (evaluate : String → String → Noting Scalar) : Prop :=
  ∀ key s, fresh src s ≤ n → ∃ r ran u,
    (∀ before, StateT.run (StateT.run (evaluate key (formulaAt src key)) before) s =
      (((settle key r u).1, before ++ key :: ran), (settle key r u).2)) ∧
      Performs src (.run (src.inquiry key) r) s ran u

theorem PerformsReads.runIn {read : String → NotedRun Scalar} (hread : PerformsReads src n read)
    {g : Except Fault Value → Except Fault Scalar} (hg : ∀ f, g (.error f) = .error f)
    (q : Inquiry (Except Fault Value)) {s : State} (hs : fresh src s ≤ n) :
    ∃ r ran t, Notes (q.runIn read) s r ran t ∧ Performs src (.run (g <$> q) (g r)) s ran t := by
  induction q generalizing s with
  | answer r => exact ⟨r, [], s, notes_result r s, .answer⟩
  | ask l next ih =>
    obtain ⟨r, ran, t, hr, ht⟩ := hread l s hs
    cases r with
    | error f =>
      refine ⟨.error f, ran, t, hr.bind_error, ?_⟩
      rw [hg]
      exact .askFails ht
    | ok v =>
      obtain ⟨r, ran', u, hr', hu⟩ := ih v (ht.advances.fresh_le hs)
      exact ⟨r, ran ++ ran', u, hr.bind hr', .ask ht hu⟩

theorem PerformsReads.runs {read : String → NotedRun Scalar} (hread : PerformsReads src n read) :
    PerformsRuns src n (evaluateNoted read) := by
  intro key s hs
  have hfault (f : Fault) :
      (cellResult (formulaAt src key) (.error f) : Except Fault Scalar) = .error f := rfl
  obtain ⟨r, ran, u, hr, hu⟩ := hread.runIn hfault (Formula.inquiry (formulaAt src key)) hs
  refine ⟨_, ran, u, fun before => ?_, hu⟩
  have hrun := hr (before ++ [key])
  rw [List.append_assoc, List.singleton_append, ← formulaValue_eq_runIn] at hrun
  unfold evaluateNoted
  rw [StateT.run_bind, StateT.run_bind, StateT.run_modify]
  show StateT.run (StateT.run (_ >>= _) (before ++ [key])) s = _
  rw [StateT.run_bind, StateT.run_bind, hrun]
  rfl

/-! ### Walks -/

variable (src) in
/-- What a walk does from a stack on: the innermost cell is computed as far as it still needs, then
the cells below it. A fault takes off the marks of the stack. -/
inductive Unwinding : List Frame → Except Fault Unit → State → List String → State → Prop
  | bottom {frame s ran t} (h : Performs src (.prefetch frame.pending (.ok ())) s ran t) :
      Unwinding [frame] (.ok ()) s ran t
  | above {frame next below r a s ran t ran' u ran'' w}
      (ht : Performs src (.prefetch frame.pending (.ok ())) s ran t)
      (hu : Performs src (.run (src.inquiry frame.label) a) t ran' u)
      (h : Unwinding (next :: below) r ((settle frame.label a u).2.unmark frame.label) ran'' w) :
      Unwinding (frame :: next :: below) r s (ran ++ frame.label :: ran' ++ ran'') w
  | broken {frame below f s ran t} (h : Performs src (.prefetch frame.pending (.error f)) s ran t) :
      Unwinding (frame :: below) (.error f) s ran (unmarkAbove (frame :: below) t)

theorem Performs.skips {r : Except Fault Unit} : ∀ {labels : List String},
    Performs src (.prefetch (labels.dropWhile (isSettled src s)) r) s ran t →
      Performs src (.prefetch labels r) s ran t
  | [], h => h
  | l :: labels, h => by
    by_cases hl : isSettled src s l = true
    · rw [List.dropWhile_cons_of_pos hl] at h
      exact .skip hl h.skips
    · rwa [List.dropWhile_cons_of_neg hl] at h

/-- The marks of a stack do not depend on what is still to be looked at. -/
theorem unmarkAbove_pending (label : String) (pending labels : List String) (below : List Frame)
    (s : State) :
    unmarkAbove (⟨label, pending⟩ :: below) s = unmarkAbove (⟨label, labels⟩ :: below) s := by
  cases below <;> rfl

/-- A cell that is computed first belongs to what the innermost cell still needs. -/
theorem Unwinding.visit {label : String} {pending labels ran' : List String} {below : List Frame}
    {r : Except Fault Unit} (ht : Performs src (.compute key (.ok ())) s ran t)
    (hs : labels.dropWhile (isSettled src s) = key :: pending)
    (h : Unwinding src (⟨label, pending⟩ :: below) r t ran' u) :
    Unwinding src (⟨label, labels⟩ :: below) r s (ran ++ ran') u := by
  have hskip {r ran' u} (h : Performs src (.prefetch pending r) t ran' u) :
      Performs src (.prefetch labels r) s (ran ++ ran') u := Performs.skips (hs ▸ .visit ht h)
  cases h with
  | bottom h => exact .bottom (hskip h)
  | above ht hu h =>
    rw [← List.append_assoc, ← List.append_assoc]
    exact .above (hskip ht) hu h
  | broken h =>
    rw [unmarkAbove_pending label pending labels]
    exact .broken (hskip h)

/-- **A walk comes to its end**, within twice as many steps as there are formulas to start. -/
theorem walk_unwinding (hlisted : ∀ l, src.HasFormula l → l ∈ src.formulas)
    {evaluate : String → String → Noting Scalar} (heval : PerformsRuns src n evaluate) :
    ∀ (steps : Nat) (frame : Frame) (below : List Frame) (s : State), fresh src s ≤ n →
      2 * fresh src s + (frame :: below).length ≤ steps → ∃ r ran t,
        Notes (walk src evaluate steps (frame :: below)) s r ran t ∧
          Unwinding src (frame :: below) r s ran t
  | 0, _, _, _, _, h => by simp at h
  | steps + 1, frame, below, s, hn, h => by
    rw [List.length_cons] at h
    unfold walk
    cases hd : frame.pending.dropWhile (isSettled src s) with
    | nil =>
      have hdone : Performs src (.prefetch frame.pending (.ok ())) s [] s :=
        Performs.skips (by rw [hd]; exact .nothing)
      cases below with
      | nil =>
        exact ⟨.ok (), [], s, (notes_get s).then (by rw [hd]; exact notes_pure () s), .bottom hdone⟩
      | cons next below =>
        obtain ⟨a, ran, u, he, hu⟩ := heval frame.label s hn
        have hsv : Advances src s ((settle frame.label a u).2.unmark frame.label) :=
          fun l hl => isSettled_unmark_settle (hu.advances l hl)
        have hle := fresh_le_of_settled hsv
        obtain ⟨r, ran', t, ht, hw⟩ := walk_unwinding hlisted heval steps next below _
          (hle.trans hn) (by rw [List.length_cons] at h ⊢; omega)
        refine ⟨r, _, t, (notes_get s).then ?_, .above hdone hu hw⟩
        rw [hd]
        exact (notes_lift he).bind ((notes_modify _ _).then ht)
    | cons key pending =>
      have hkey := not_settled_of_dropWhile hd
      have hlt := fresh_mark_lt hkey (hlisted key (isSettled_eq_false_iff.mp hkey).1)
      cases hdeps : dependencies (formulaAt src key) with
      | error f =>
        have hstuck : Performs src (.prefetch frame.pending (.error f)) s [] (s.mark key) :=
          Performs.skips (by rw [hd]; exact .stuck hkey hdeps)
        refine ⟨.error f, [], _, (notes_get s).then ?_, .broken hstuck⟩
        rw [hd]
        refine (notes_modify _ _).then ?_
        simp only [hdeps]
        rw [unmarkAbove_pending frame.label frame.pending pending]
        exact (notes_modify _ _).then (notes_result (.error f) _)
      | ok labels =>
        obtain ⟨r, ran, t, ht, hw⟩ := walk_unwinding hlisted heval steps ⟨key, labels⟩
          ({ frame with pending } :: below) (s.mark key) (by omega)
          (by simp only [List.length_cons]; omega)
        refine ⟨r, ran, t, (notes_get s).then ?_, ?_⟩
        · rw [hd]
          refine (notes_modify _ _).then ?_
          simpa only [hdeps] using ht
        · cases hw with
          | above hp hu hw => exact Unwinding.visit (.compute hkey hdeps hp hu) hd hw
          | @broken _ _ f _ _ t hp =>
            have hfails : Performs src (.prefetch frame.pending (.error f)) s ran (t.unmark key) :=
              Performs.skips (by rw [hd]; exact .broken (.givesUp hkey hdeps hp))
            -- the innermost mark goes first, as the walk through the rest of the stack goes on
            show Unwinding src _ _ s ran (unmarkAbove (⟨frame.label, pending⟩ :: below) (t.unmark key))
            rw [unmarkAbove_pending frame.label pending frame.pending]
            exact .broken hfails

/-! ### Reading a cell -/

theorem unmark_mark (hkey : key ∉ s.running) : (s.mark key).unmark key = s := by
  have hrun := running_unmark (running_mark key s) hkey
  cases s
  simpa [State.unmark, State.mark] using hrun

/-- The marks of a computation stand around it, whatever it comes to. -/
theorem notes_compute {evaluate : String → String → Noting Scalar} {steps : Nat} {formula : String}
    {r : Except Fault Scalar}
    (h : Notes (do
        prefetch src steps evaluate key formula
        evaluate key formula) (s.mark key) r ran t) :
    Notes (compute src steps evaluate key formula) s r ran (t.unmark key) := by
  intro before
  unfold compute
  rw [ExceptT.run_mk, StateT.run_bind, StateT.run_bind]
  show StateT.run (StateT.run (ExceptT.run _ >>= _) before) (s.mark key) = _
  rw [StateT.run_bind, StateT.run_bind, h before]
  rfl

theorem compute_performs (hlisted : ∀ l, src.HasFormula l → l ∈ src.formulas) {steps : Nat}
    (hsteps : 2 * src.formulas.length + 1 ≤ steps) {evaluate : String → String → Noting Scalar}
    (heval : PerformsRuns src n evaluate) (hkey : isSettled src s key = false)
    (hs : fresh src s ≤ n + 1) : ∃ r ran t,
      Notes (compute src steps evaluate key (formulaAt src key)) s r ran t ∧
        Performs src (.read key r) s ran t := by
  have hlt := fresh_mark_lt hkey (hlisted key (isSettled_eq_false_iff.mp hkey).1)
  have hle : fresh src s ≤ src.formulas.length := List.countP_le_length
  cases hdeps : dependencies (formulaAt src key) with
  | error f =>
    have hprefetch : Notes (prefetch src steps evaluate key (formulaAt src key))
        (s.mark key) (.error f) [] (s.mark key) := by
      unfold prefetch
      rw [hdeps]
      exact (notes_result (.error f) _).bind_error
    have hcompute := notes_compute hprefetch.bind_error
    rw [unmark_mark (isSettled_eq_false_iff.mp hkey).2.2] at hcompute
    exact ⟨.error f, [], s, hcompute, .startStuck hkey hdeps⟩
  | ok labels =>
    obtain ⟨r, ran, t, ht, hw⟩ := walk_unwinding hlisted heval steps ⟨key, labels⟩ []
      (s.mark key) (by omega) (by simp only [List.length_cons, List.length_nil]; omega)
    have hprefetch : Notes (prefetch src steps evaluate key (formulaAt src key))
        (s.mark key) r ran t := by
      unfold prefetch
      rw [hdeps, Expr.pureResult_ok_bind]
      exact ht
    cases hw with
    | bottom hp =>
      obtain ⟨a, ran', u, he, hu⟩ := heval key t (hp.advances.fresh_le (by omega))
      refine ⟨.ok (settle key a u).1, _, (settle key a u).2.unmark key,
        notes_compute (hprefetch.bind (notes_lift he)), .start (.compute hkey hdeps hp hu) ?_⟩
      rw [memo_unmark, memo_settle_self]
    | @broken _ _ f _ _ t hp =>
      exact ⟨.error f, ran, t.unmark key, notes_compute hprefetch.bind_error,
        .startFails (.givesUp hkey hdeps hp)⟩

theorem look_performs {compute : String → String → NotedRun Scalar}
    (hstart : ∀ key s, isSettled src s key = false → fresh src s ≤ n → ∃ r ran t,
      Notes (compute key (formulaAt src key)) s r ran t ∧ Performs src (.read key r) s ran t) :
    PerformsReads src n (look src compute) := by
  intro label s hs
  unfold look
  rcases look_cases src s (Label.normalize label) with
    ⟨v, hv⟩ | ⟨hm, hr⟩ | ⟨hm, hr, hf⟩ | hkey
  · refine ⟨.ok v, [], s, (notes_get s).then ?_, .remembered hv⟩
    simp only [hv]
    exact notes_pure v s
  · refine ⟨.ok (.int 0), [], _, (notes_get s).then ?_, .closed hm hr⟩
    simp only [hm, List.contains_iff_mem, hr, if_true]
    exact (notes_modify _ _).then (notes_pure _ _)
  · refine ⟨.ok (src.literal _), [], _, (notes_get s).then ?_, .literal hm hr hf⟩
    simp only [hm, List.contains_iff_mem, hr, if_false]
    rw [if_neg (show ¬ Content.isFormula (src.cell (Label.normalize label)) = true from hf)]
    exact (notes_modify _ _).then (notes_pure _ _)
  · obtain ⟨r, ran, t, ht, h⟩ := hstart _ s hkey hs
    obtain ⟨hf, hm, hr⟩ := isSettled_eq_false_iff.mp hkey
    refine ⟨r, ran, t, (notes_get s).then ?_, h⟩
    simp only [memo_none_iff.mpr hm, List.contains_iff_mem, hr, if_false]
    rw [if_pos (show Content.isFormula (src.cell (Label.normalize label)) = true from hf)]
    exact ht

theorem performsReads_start (hlisted : ∀ l, src.HasFormula l → l ∈ src.formulas) {steps : Nat}
    (hsteps : 2 * src.formulas.length + 1 ≤ steps) :
    ∀ n, PerformsReads src n (look src (startNoted src steps n))
  | 0 => look_performs fun _ _ hkey hs => by
    have := fresh_mark_lt hkey (hlisted _ (isSettled_eq_false_iff.mp hkey).1)
    omega
  | n + 1 => look_performs fun _ _ hkey hs =>
    compute_performs hlisted hsteps (performsReads_start hlisted hsteps n).runs hkey hs

/-- **Reading a cell comes to an end** on any sheet, with bounds that are large enough, and does
what the relation says. -/
theorem readNoted_performs (hlisted : ∀ l, src.HasFormula l → l ∈ src.formulas)
    {steps depth : Nat} (hsteps : 2 * src.formulas.length + 1 ≤ steps)
    (hdepth : src.formulas.length ≤ depth) (label : String) (s : State) : ∃ r ran t,
      Notes (readNoted src steps depth label) s r ran t ∧
        Performs src (.read (Label.normalize label) r) s ran t :=
  performsReads_start hlisted hsteps depth label s (List.countP_le_length.trans hdepth)

end Spreadsheet.Session
