import Spreadsheet.Proofs.Session.Cycles
import Spreadsheet.Proofs.Session.NotedRequests
import Mathlib.Data.List.Nodup

/-! # Every formula is run at most once

A cell is marked while its formula runs and remembered afterwards, and a marked or remembered cell
is not started. So a session runs no formula twice, whatever it is asked for and whatever cycles and
faults it meets, and it has run the formulas of the cells that it has computed
(`after_runsOnce`).

* `RunsOnce.settle`: the run of one formula.
* `Performs.runsOnce`: whatever a session does. -/

namespace Spreadsheet.Session

/-- **The formulas run on the way from one state to another** are run once each. They are those of
the cells that have been computed on the way. -/
structure RunsOnce (src : Source) (s : State) (ran : List String) (t : State) : Prop where
  once : ran.Nodup
  started : ∀ k ∈ ran, isSettled src s k = false
  computed : ∀ k ∈ ran, k ∈ t.memo
  found : ∀ k, Computed src t k → Computed src s k ∨ k ∈ ran
  kept : ∀ l ∈ s.memo, l ∈ t.memo
  settled : Advances src s t

variable {src : Source} {s t u : State} {key : String} {ran ran' : List String}

/-! ### One formula -/

/-- Where no formula is computed, none is run. -/
theorem runsOnce_nil (hfound : ∀ k, Computed src t k → Computed src s k)
    (hkept : ∀ l ∈ s.memo, l ∈ t.memo) (hsettled : Advances src s t) : RunsOnce src s [] t where
  once := List.nodup_nil
  started _ hk := by cases hk
  computed _ hk := by cases hk
  found k hk := Or.inl (hfound k hk)
  kept := hkept
  settled := hsettled

theorem RunsOnce.refl (src : Source) (s : State) : RunsOnce src s [] s :=
  runsOnce_nil (fun _ h => h) (fun _ h => h) (Advances.refl src s)

/-- What has been run is settled, so it is not run again. -/
theorem RunsOnce.trans (h : RunsOnce src s ran t) (h' : RunsOnce src t ran' u) :
    RunsOnce src s (ran ++ ran') u where
  once := by
    refine List.nodup_append.mpr ⟨h.once, h'.once, ?_⟩
    rintro k hk _ hk' rfl
    have hsettled : isSettled src t k = true :=
      isSettled_iff.mpr (Or.inr (Or.inl (h.computed k hk)))
    rw [h'.started k hk'] at hsettled
    cases hsettled
  started k hk := by
    rcases List.mem_append.mp hk with hk | hk
    · exact h.started k hk
    · by_contra hs
      rw [Bool.not_eq_false] at hs
      have hsettled := h.settled k hs
      rw [h'.started k hk] at hsettled
      cases hsettled
  computed k hk := by
    rcases List.mem_append.mp hk with hk | hk
    · exact h'.kept k (h.computed k hk)
    · exact h'.computed k hk
  found k hk := by
    rcases h'.found k hk with hk | hk
    · exact (h.found k hk).imp_right (List.mem_append_left ran')
    · exact Or.inr (List.mem_append_right ran hk)
  kept l hl := h'.kept l (h.kept l hl)
  settled := h.settled.trans h'.settled

/-- Cells that run while another is marked did not run before, and are not that cell. -/
theorem RunsOnce.ne_of_mark (h : RunsOnce src (s.mark key) ran t) {k : String} (hk : k ∈ ran) :
    isSettled src s k = false ∧ k ≠ key := by
  obtain ⟨hf, hm, hr⟩ := isSettled_eq_false_iff.mp (h.started k hk)
  rw [running_mark, List.mem_cons, not_or] at hr
  exact ⟨isSettled_eq_false_iff.mpr ⟨hf, hm, hr.2⟩, hr.1⟩

theorem RunsOnce.unmark (h : RunsOnce src (s.mark key) ran t)
    (hkey : isSettled src s key = false) : RunsOnce src s ran (t.unmark key) where
  once := h.once
  started _ hk := (h.ne_of_mark hk).1
  computed := h.computed
  found := h.found
  kept := h.kept
  settled := h.settled.unmark hkey

/-- **A formula is run** after those read ahead of it and before those read while it runs. -/
theorem RunsOnce.settle (h : RunsOnce src (s.mark key) ran t) (h' : RunsOnce src t ran' u)
    (hkey : isSettled src s key = false) (r : Except Fault Scalar) :
    RunsOnce src s (ran ++ key :: ran') ((Session.settle key r u).2.unmark key) := by
  have hall := h.trans h'
  have hmemo (l : String) :
      l ∈ ((Session.settle key r u).2.unmark key).memo ↔ key = l ∨ l ∈ u.memo := by
    rw [memo_unmark, memo_settle, Std.HashMap.mem_insert, beq_iff_eq]
  have hmem (k : String) : k ∈ ran ++ key :: ran' ↔ k = key ∨ k ∈ ran ++ ran' := by
    simp only [List.mem_append, List.mem_cons]
    tauto
  refine ⟨?_, fun k hk => ?_, fun k hk => ?_, fun k hk => ?_, fun l hl => ?_, ?_⟩
  · rw [List.nodup_middle, List.nodup_cons]
    exact ⟨fun hk => (hall.ne_of_mark hk).2 rfl, hall.once⟩
  · rcases (hmem k).mp hk with rfl | hk
    · exact hkey
    · exact (hall.ne_of_mark hk).1
  · rw [hmemo]
    exact ((hmem k).mp hk).imp Eq.symm (hall.computed k)
  · rw [hmem]
    rcases (hmemo k).mp hk.2 with h | h
    · exact Or.inr (Or.inl h.symm)
    · exact (hall.found k ⟨hk.1, h⟩).imp_right Or.inr
  · exact (hmemo l).mpr (Or.inr (hall.kept l hl))
  · exact (hall.settled.trans (advances_settle key r)).unmark hkey

/-- **No formula is run twice**, whatever a session does. -/
theorem Performs.runsOnce {errand : Errand} (h : Performs src errand s ran t) :
    RunsOnce src s ran t := by
  induction h with
  | nothing | answer | remembered | startStuck => exact RunsOnce.refl src _
  | skip _ _ ih | broken _ ih | askFails _ ih | start _ _ ih | startFails _ ih => exact ih
  | visit _ _ ih ih' | ask _ _ ih ih' => exact ih.trans ih'
  | stuck => exact runsOnce_nil (fun _ h => h) (fun _ h => h) (advances_mark _)
  | compute hkey _ _ _ ih ih' => exact ih.settle ih' hkey _
  | givesUp hkey _ _ ih => exact ih.unmark hkey
  | closed => exact runsOnce_nil (fun _ h => h) (fun _ h => h) (Advances.refl src _)
  | @literal key s hm hr hf =>
    have hadvances := (Performs.literal hm hr hf).advances
    refine runsOnce_nil (fun k hk => ⟨hk.1, ?_⟩)
      (fun l hl => Std.HashMap.mem_insert.mpr (Or.inr hl)) hadvances
    rcases Std.HashMap.mem_insert.mp hk.2 with h | h
    · exact absurd (eq_of_beq h ▸ hk.1) hf
    · exact h

theorem Readings.runsOnce (h : Readings src s ran t) : RunsOnce src s ran t := by
  induction h with
  | nil => exact RunsOnce.refl src _
  | cons h _ ih => exact h.runsOnce.trans ih

/-- **Sessions come to an end and run no formula twice**, on any sheet. With any bounds that are
large enough a session finds what it finds with its own; it has run the formula of each cell that it
has computed once, and no other, so never more formulas than there are; and every reading is a
finite computation that knows no bounds. -/
theorem after_runsOnce (sheet : Sheet) (requests : List Request) {steps depth : Nat}
    (hsteps : 2 * sheet.formulas.length + 1 ≤ steps) (hdepth : sheet.formulas.length ≤ depth) :
    (afterNoted sheet steps depth requests).2 = after sheet requests ∧
      (afterNoted sheet steps depth requests).1.Nodup ∧
      (∀ k, k ∈ (afterNoted sheet steps depth requests).1 ↔
        Computed sheet.source (after sheet requests) k) ∧
      (afterNoted sheet steps depth requests).1.length ≤ sheet.formulas.length ∧
      ∀ label s, ∃ r ran t, Notes (readNoted sheet.source steps depth label) s r ran t ∧
        Gives (read sheet.source label) s r t ∧
          Performs sheet.source (.read (Label.normalize label) r) s ran t := by
  have hlisted (l : String) (hl : sheet.source.HasFormula l) : l ∈ sheet.source.formulas :=
    Sheet.mem_formulas_of_hasFormula hl
  obtain ⟨ran, hreadings, hafter⟩ := readings_after sheet requests hsteps hdepth
  have hran := hreadings.runsOnce
  have hform (k : String) (hk : k ∈ ran) : sheet.source.HasFormula k :=
    (isSettled_eq_false_iff.mp (hran.started k hk)).1
  rw [hafter]
  refine ⟨rfl, hran.once, fun k => ⟨fun hk => ⟨hform k hk, hran.computed k hk⟩, fun hk => ?_⟩,
    (List.subperm_of_subset hran.once fun k hk => hlisted k (hform k hk)).length_le,
    fun label s => ?_⟩
  · exact (hran.found k hk).resolve_left fun h => by simp [Computed] at h
  · rw [readNoted_bounds hlisted hsteps hdepth]
    obtain ⟨r, ran, t, hr, ht⟩ := readNoted_performs hlisted le_rfl le_rfl label s
    exact ⟨r, ran, t, hr, (erases_readNoted sheet.source label).gives hr, ht⟩

theorem after_runsOnce_branching :
    2 * branching.formulas.length + 1 ≤ 100 ∧ branching.formulas.length ≤ 50 ∧
      (afterNoted branching 100 50 [.cell "A1", .all]).2 = after branching [.cell "A1", .all] ∧
      (afterNoted branching 100 50 [.cell "A1", .all]).1.Nodup ∧
      (∀ k, k ∈ (afterNoted branching 100 50 [.cell "A1", .all]).1 ↔
        Computed branching.source (after branching [.cell "A1", .all]) k) ∧
      (afterNoted branching 100 50 [.cell "A1", .all]).1.length ≤ branching.formulas.length ∧
      ∀ label s, ∃ r ran t, Notes (readNoted branching.source 100 50 label) s r ran t ∧
        Gives (read branching.source label) s r t ∧
          Performs branching.source (.read (Label.normalize label) r) s ran t := by
  have hsteps : 2 * branching.formulas.length + 1 ≤ 100 := by decide
  have hdepth : branching.formulas.length ≤ 50 := by decide
  exact ⟨hsteps, hdepth, after_runsOnce branching _ hsteps hdepth⟩

end Spreadsheet.Session
