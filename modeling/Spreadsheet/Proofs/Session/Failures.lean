import Spreadsheet.Proofs.Session.Cycles
import Spreadsheet.Proofs.Session.Denotations
import Spreadsheet.Proofs.Session.Endings
import Spreadsheet.Proofs.Session.Stability

/-! # Where failures are recorded

A formula may be refused by the grammar, read a malformed range, come to a list, or overflow. The
failure is recorded of its own cell, which reads as 0, and of no cell that merely refers to it,
however the cell was come upon (`Contained`). So it is on all sheets whose numerals fit; on others a
numeral that is too long ends the request instead (`after_contained`, `answer_overlong`).

* `Does.prefetched`: what a computed cell reads ahead has been computed, or is running. -/

namespace Spreadsheet.Session

open Relation (TransGen)

/-! ### Cells that are come upon -/

/-- What the computed cells read ahead needs no computation any more. -/
def Prefetched (src : Source) (s : State) : Prop :=
  ∀ c, Computed src s c → ∀ l ∈ src.ahead c, isSettled src s l = true

/-- The task has been to compute the cells that are settled now. -/
def Task.Settled (src : Source) (t : State) : Task → Prop
  | prefetch labels => ∀ l ∈ labels, isSettled src t l = true
  | compute key => key ∈ t.memo
  | run _ _ | read _ _ => True

variable {src : Source} {s t u : State} {key : String}

theorem Prefetched.settle {r : Except Fault Scalar} (hs : Prefetched src s)
    (hkey : ∀ l ∈ src.ahead key, isSettled src s l = true) :
    Prefetched src ((settle key r s).2.unmark key) := by
  intro c hc l hl
  refine isSettled_unmark_settle ?_
  have hmem := hc.2
  rw [memo_unmark, memo_settle, Std.HashMap.mem_insert] at hmem
  rcases hmem with h | h
  · exact hkey l (eq_of_beq h ▸ hl)
  · exact hs c ⟨hc.1, h⟩ l hl

/-- **What a computed cell reads ahead** has been computed before it, or is running. -/
theorem Does.prefetched {task : Task} (h : Does src src.ahead task s t) (hs : Prefetched src s) :
    Prefetched src t ∧ task.Settled src t := by
  induction h with
  | nothing => exact ⟨hs, by simp [Task.Settled]⟩
  | skip hl h ih =>
    obtain ⟨ht, hls⟩ := ih hs
    exact ⟨ht, List.forall_mem_cons.mpr ⟨h.grows.isSettled hl, hls⟩⟩
  | visit _ h ih ih' =>
    obtain ⟨ht, hl⟩ := ih hs
    obtain ⟨hu, hls⟩ := ih' ht
    refine ⟨hu, List.forall_mem_cons.mpr ⟨h.grows.isSettled ?_, hls⟩⟩
    exact isSettled_iff.mpr (Or.inr (Or.inl hl))
  | compute _ _ hq ih ih' =>
    obtain ⟨ht, hahead⟩ := ih fun c hc l hl => isSettled_mark (hs c hc l hl)
    refine ⟨(ih' ht).1.settle fun l hl => hq.grows.isSettled (hahead l hl), ?_⟩
    exact mem_of_memo (by rw [memo_unmark, memo_settle_self])
  | answer | remembered => exact ⟨hs, trivial⟩
  | ask _ _ ih ih' => exact ⟨(ih' (ih hs).1).1, trivial⟩
  | closed => exact ⟨hs, trivial⟩
  | @literal key s hm hr hf =>
    have hgrows := (Does.literal hm hr hf : Does src src.ahead _ _ _).grows
    refine ⟨fun c hc l hl => hgrows.isSettled (hs c ⟨hc.1, ?_⟩ l hl), trivial⟩
    rcases Std.HashMap.mem_insert.mp hc.2 with h | h
    · exact absurd (eq_of_beq h ▸ hc.1) hf
    · exact h
  | start _ _ ih => exact ⟨(ih hs).1, trivial⟩

theorem Answers.prefetched {answers : List (String × Scalar)}
    (h : Answers src src.ahead answers s t) (hs : Prefetched src s) : Prefetched src t :=
  h.invariant (fun h hs => (h.prefetched hs).1) hs

/-- Computing the cell `c` comes upon the formula cell `l`: the formula at `c` refers to it outside
its branches, or reads it over the values of the session. -/
def ComesUpon (src : Source) (s : State) (c l : String) : Prop :=
  src.HasFormula l ∧ (src.RefersEagerlyTo c l ∨ l ∈ src.readsOver (s.valueAt src) c)

/-- **All cells that a computed cell comes upon have been computed.** -/
theorem Sound.computed_of_comesUpon (hsrc : src.Regular) (hs : Sound src s)
    (hahead : Prefetched src s) (hrun : s.running = []) {c l : String} (hc : Computed src s c)
    (h : ComesUpon src s c l) : Computed src s l := by
  obtain ⟨hl, ⟨-, e, he, r, hr, hcovers⟩ | hread⟩ := h
  · have hsettled := hahead c hc l (hsrc.mem_ahead hc.1 he hr hcovers)
    rcases isSettled_iff.mp hsettled with h | h | h
    · exact absurd hl h
    · exact ⟨hl, h⟩
    · simp [hrun] at h
  · rw [hs.readsOver_eq hc] at hread
    exact hs.computed_of_readsIn hrun hc ⟨hl, hread⟩

/-! ### Requests -/

/-- What a session gives for all formula cells. -/
def answerAll (sheet : Sheet) (s : State) : Except Fault (List (String × Scalar)) :=
  (StateT.run (readAll sheet.source).run s).1

/-- **Failures stay within a session**: cells are read without fault; a fault is recorded of the
computed cells whose own formulas fail over the values of the session, a cycle only of cells that
refer back to themselves, and these cells read as 0; a cell that is asked for has been computed, and
so have all that a computed cell comes upon. -/
structure Contained (sheet : Sheet) (requests : List Request) : Prop where
  cell : ∀ label, ∃ v, answer sheet (after sheet requests) label = .ok v
  all : ∃ values, answerAll sheet (after sheet requests) = .ok values
  fault : ∀ c f, (after sheet requests).errors.get? c = some (.fault f) ↔
    Computed sheet.source (after sheet requests) c ∧
      sheet.source.formulaOver ((after sheet requests).valueAt sheet.source) c = .error f
  cycle : ∀ c, (after sheet requests).errors.get? c = some .cycle →
    TransGen sheet.source.RefersTo c c
  zero : ∀ c e, (after sheet requests).errors.get? c = some e →
    (after sheet requests).memo[c]? = some (.int 0)
  asked : ∀ label, sheet.source.HasFormula (Label.normalize label) →
    Computed sheet.source (after sheet (requests ++ [.cell label])) (Label.normalize label)
  askedAll : ∀ label ∈ sheet.source.formulas, sheet.source.HasFormula (Label.normalize label) →
    Computed sheet.source (after sheet (requests ++ [.all])) (Label.normalize label)
  comesUpon : ∀ c l, Computed sheet.source (after sheet requests) c →
    ComesUpon sheet.source (after sheet requests) c l →
      Computed sheet.source (after sheet requests) l

theorem contained_of_fits {sheet : Sheet} (hfit : sheet.NumeralsFit) (requests : List Request) :
    Contained sheet requests := by
  obtain ⟨hs, hrun⟩ := after_sound hfit requests
  have hrest := after_atRest hfit requests
  obtain ⟨answers, hanswers⟩ := answers_after hfit.regular requests
  have hahead := hanswers.prefetched fun c hc => by simp [Computed] at hc
  refine ⟨fun label => ?_, ?_, fun c f => ?_, after_onCycles hfit requests,
    fun c e he => (hrest.failed c e he).2, fun label hl => ?_, fun label hl hform => ?_,
    fun c l hc h => hs.computed_of_comesUpon hfit.regular hahead hrun hc h⟩
  · obtain ⟨v, hv, -⟩ := memo_after_cell hfit requests label
    exact ⟨v, hv⟩
  · obtain ⟨vs, t, -, hvs, -⟩ := readAll_does hfit.regular (after sheet requests)
    exact ⟨_, congrArg Prod.fst hvs⟩
  · rw [Source.formulaOver_eq]
    exact hs.fault_iff hrun
  · obtain ⟨v, -, hv⟩ := memo_after_cell hfit requests label
    exact ⟨hl, mem_of_memo hv⟩
  · exact ⟨hform, mem_memo_of_all hfit.regular (by simp) hl⟩

/-- **Errors do not escape a session**, but for numerals that are too long: on every sheet a reading
that fails has met one, and if the numerals of the sheet fit, all failures stay within. -/
theorem after_contained (sheet : Sheet) (requests : List Request) :
    (∀ label f, answer sheet (after sheet requests) label = .error f → Label.IsLongNumeral f) ∧
      (∀ f, answerAll sheet (after sheet requests) = .error f → Label.IsLongNumeral f) ∧
      (sheet.NumeralsFit → Contained sheet requests) := by
  have hread (label : String) (s : State) :
      Ends sheet.source Label.IsLongNumeral (read sheet.source label) s :=
    read_ends (fun _ => Sheet.mem_formulas_of_hasFormula) label s
  refine ⟨fun label f hf => ?_, fun f hf => ?_, fun hfit => contained_of_fits hfit requests⟩
  · obtain ⟨r, t, hr, -, hlong⟩ := hread label (after sheet requests)
    exact hlong f ((congrArg Prod.fst hr).symm.trans hf)
  · obtain ⟨r, t, hr, -, hlong⟩ := Ends.mapM (fun label s =>
      (hread label s).bind fun v t _ => ends_pure (label, v) t) sheet.source.formulas
      (after sheet requests)
    exact hlong f ((congrArg Prod.fst hr).symm.trans hf)

theorem after_contained_looped : looped.NumeralsFit ∧ Contained looped [.cell "b1", .all] := by
  have hfit : looped.NumeralsFit := Sheet.numeralsFit_of_short (by decide)
  exact ⟨hfit, (after_contained looped _).2.2 hfit⟩

/-! ### A numeral that is too long -/

/-- **A formula whose dependencies cannot be told** ends the request that comes to it first. -/
theorem gives_read_error {label : String} {f : Fault}
    (hkey : isSettled src s (Label.normalize label) = false)
    (hlisted : Label.normalize label ∈ src.formulas)
    (hdeps : dependencies (formulaAt src (Label.normalize label)) = .error f) :
    ∃ t, Gives (read src label) s (.error f) t := by
  obtain ⟨n, hn⟩ : ∃ n, src.formulas.length = n + 1 :=
    Nat.exists_eq_add_one_of_ne_zero (List.length_pos_of_mem hlisted).ne'
  refine ⟨(s.mark (Label.normalize label)).unmark (Label.normalize label),
    gives_look_compute hkey ?_⟩
  rw [hn, start_succ]
  refine gives_compute (Gives.bind_error ?_)
  unfold prefetch
  rw [hdeps]
  exact (gives_result (.error f) _).bind_error

/-- A sheet with a numeral of the given number of digits in A1. -/
def overlong (digits : Nat) : Sheet :=
  .small [("A1", .text (String.ofList ('=' :: List.replicate digits '1')))]

/-- **A numeral that is too long escapes**: its cell cannot be read. -/
theorem answer_overlong {digits : Nat} (h : numeralLimit < digits) :
    answer (overlong digits) (after (overlong digits) []) "A1" =
      .error (.numeralTooLong digits) := by
  obtain ⟨hform, hat⟩ := Sheet.formula_of_mem (s := overlong digits) (l := "A1")
    (t := String.ofList ('=' :: List.replicate digits '1')) (List.pairwise_singleton _ _)
    List.mem_cons_self (by simp [Scalar.isFormula, Text.isBlank])
  have hdeps : dependencies (formulaAt (overlong digits).source "A1") =
      .error (.numeralTooLong digits) := by
    have htree : Formula.ofText (String.ofList ('=' :: List.replicate digits '1')) =
        .error (.numeralTooLong (List.replicate digits '1').length) :=
      Formula.ofText_digits (fun d hd => List.eq_of_mem_replicate hd ▸ by decide) (by simpa using h)
    rw [List.length_replicate] at htree
    simp only [hat, dependencies, htree]
  have hkey : "A1" = Label.normalize "A1" := by decide
  have hsettled : isSettled (overlong digits).source {} "A1" = false :=
    isSettled_eq_false_iff.mpr ⟨hform, by simp, by simp⟩
  have hlisted := Sheet.mem_formulas_of_hasFormula hform
  rw [hkey] at hsettled hlisted hdeps
  obtain ⟨t, ht⟩ := gives_read_error hsettled hlisted hdeps
  exact congrArg Prod.fst ht

/-- So failures do not stay within every session. -/
theorem not_contained_overlong : ¬ ∀ sheet requests, Contained sheet requests := by
  intro h
  obtain ⟨v, hv⟩ := (h (overlong 4301) []).cell "A1"
  rw [answer_overlong (by decide)] at hv
  cases hv

end Spreadsheet.Session
