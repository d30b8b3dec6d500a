import Spreadsheet.Proofs.Session.Recomputation
import Spreadsheet.Proofs.Session.Similarity

/-! # Cycles that are recorded

A cycle is recorded of a cell that is read while it runs. The cells that run wait for one another:
each of them leads by references to whatever is read or computed next (`Downstream`), also where
that is reached through the cells read ahead. So a cell of which a cycle is recorded lies on a cycle
of references (`Does.onCycles`), whether its branches are taken or not.

* `CellError.message_eq_cycle`: only a cycle is recorded with the text of a cycle. -/

namespace Spreadsheet

open Relation (TransGen)

/-! ### The text of a cycle -/

/-- The text starts with the character. -/
def StartsWith (c : Char) (s : String) : Prop :=
  s.toList.head? = some c

theorem startsWith_ofList (c : Char) (cs : List Char) :
    StartsWith c (String.ofList (c :: cs)) := by
  unfold StartsWith
  rw [String.toList_ofList, List.head?_cons]

theorem StartsWith.append {c : Char} {a : String} (h : StartsWith c a) (b : String) :
    StartsWith c (a ++ b) := by
  unfold StartsWith at h ⊢
  rw [String.toList_append, List.head?_append, h, Option.some_or]

theorem startsWith_numeralLimitMessage : StartsWith 'E' numeralLimitMessage :=
  ((startsWith_ofList _ _).append _).append _

/-- The text of a fault starts with a letter. -/
theorem Fault.startsWith_message (f : Fault) : ∃ c, c.isAlpha = true ∧ StartsWith c f.message := by
  cases f with
  | badSyntax reason position =>
    exact ⟨'F', rfl, ((((startsWith_ofList _ _).append _).append _).append _).append _⟩
  | badReference ref reason =>
    cases reason <;> exact ⟨'I', rfl, (startsWith_ofList _ _).append _⟩
  | outOfBounds ref rows cols =>
    exact ⟨'O', rfl,
      ((((((startsWith_ofList _ _).append _).append _).append _).append _).append _).append _⟩
  | rangeAsValue body => exact ⟨'R', rfl, (startsWith_ofList _ _).append _⟩
  | unknownOperator symbol => exact ⟨'U', rfl, (startsWith_ofList _ _).append _⟩
  | unknownNode kind => exact ⟨'U', rfl, (startsWith_ofList _ _).append _⟩
  | overflow kind => cases kind <;> exact ⟨'i', rfl, startsWith_ofList _ _⟩
  | numeralTooLong digits =>
    exact ⟨'E', rfl, (((startsWith_numeralLimitMessage.append _).append _).append _).append _⟩
  | integerTooLong => exact ⟨'E', rfl, startsWith_numeralLimitMessage.append _⟩
  | badPrecision precision =>
    by_cases h : precision < 0
    · refine ⟨'F', rfl, ?_⟩
      show StartsWith _ (ite (precision < 0) _ _)
      rw [if_pos h]
      exact startsWith_ofList _ _
    · refine ⟨'p', rfl, ?_⟩
      show StartsWith _ (ite (precision < 0) _ _)
      rw [if_neg h]
      exact startsWith_ofList _ _
  | nestedTooDeep => exact ⟨'m', rfl, startsWith_ofList _ _⟩

/-- **Only a cycle is recorded with the text of a cycle.** -/
theorem Session.CellError.message_eq_cycle {e : CellError} :
    e.message = "#CYCLE!" ↔ e = .cycle := by
  refine ⟨fun h => ?_, fun h => h ▸ rfl⟩
  cases e with
  | cycle => rfl
  | fault f =>
    obtain ⟨c, halpha, hc⟩ := f.startsWith_message
    rw [show f.message = "#CYCLE!" from h] at hc
    obtain rfl : '#' = c := Option.some.inj hc
    cases halpha

/-! ### Cells that run -/

namespace Session

/-- All running cells lead to the cell by references. -/
def Downstream (src : Source) (s : State) (l : String) : Prop :=
  ∀ p ∈ s.running, TransGen src.RefersTo p l

/-- The task is about cells that all running cells lead to. -/
def Task.Downstream (src : Source) (s : State) : Task → Prop
  | prefetch labels => ∀ l ∈ labels, Session.Downstream src s l
  | compute key => Session.Downstream src s key
  | run q _ => q.AsksOnly (Session.Downstream src s)
  | read key _ => Session.Downstream src s key

/-- Every cell of which a cycle is recorded lies on a cycle of references. -/
def OnCycles (src : Source) (s : State) : Prop :=
  ∀ k, s.errors.get? k = some .cycle → TransGen src.RefersTo k k

variable {src : Source} {s t u : State} {key : String}

theorem Downstream.of_running_eq {l : String} (h : Downstream src s l)
    (hrun : t.running = s.running) : Downstream src t l :=
  fun p hp => h p (hrun ▸ hp)

/-- What a cell refers to is downstream once the cell runs. -/
theorem Downstream.mark {l : String} (h : Downstream src s key) (hl : src.RefersTo key l) :
    Downstream src (s.mark key) l := by
  rintro p (_ | ⟨_, hp⟩)
  · exact .single hl
  · exact (h p hp).tail hl

theorem cycle_of_settle {r : Except Fault Scalar} {k : String}
    (h : (settle key r s).2.errors.get? k = some .cycle) : s.errors.get? k = some .cycle := by
  by_cases hk : k = key
  · subst hk
    cases r with
    | ok v => exact h
    | error f => cases (OrderedMap.get?_insert_self _ _ _).symm.trans h
  · rwa [errors_settle_of_ne r hk] at h

/-- **A cycle is recorded only of a cell that leads back to itself.** -/
theorem Does.onCycles {task : Task} (h : Does src src.ahead task s t)
    (hw : task.Downstream src s) (hs : OnCycles src s) : OnCycles src t := by
  induction h with
  | nothing | answer | remembered | literal => exact hs
  | skip _ _ ih => exact ih (fun l hl => hw l (List.mem_cons_of_mem _ hl)) hs
  | visit hl _ ih ih' =>
    refine ih' (fun l hl' => ?_) (ih (hw _ List.mem_cons_self) hs)
    exact (hw l (List.mem_cons_of_mem _ hl')).of_running_eq hl.grows.running
  | @compute key r s t u hkey hp hq ih ih' =>
    have hform := (isSettled_eq_false_iff.mp hkey).1
    have ht : OnCycles src t := ih (fun l hl =>
      Downstream.mark hw (hform.refersTo_of_mem_ahead hl)) hs
    have hu : OnCycles src u := ih' (hform.asksOnly.mono fun l hl =>
      (Downstream.mark hw hl).of_running_eq hp.grows.running) ht
    exact fun k hk => hu k (cycle_of_settle hk)
  | ask hl _ ih ih' =>
    exact ih' ((hw.2 _).mono fun l hl' => hl'.of_running_eq hl.grows.running) (ih hw.1 hs)
  | @closed key s _ hr =>
    intro k hk
    by_cases h : k = key
    · subst h
      exact hw k hr
    · exact hs k ((OrderedMap.get?_insert_of_ne h _ _).symm.trans hk)
  | start _ _ ih => exact ih hw hs

theorem Answers.onCycles {answers : List (String × Scalar)}
    (h : Answers src src.ahead answers s t) (hrun : s.running = []) (hs : OnCycles src s) :
    OnCycles src t := by
  have hp {key v s t} (h : Does src src.ahead (.read key v) s t)
      (hs : s.running = [] ∧ OnCycles src s) : t.running = [] ∧ OnCycles src t := by
    have hw : Downstream src s key := fun p hp => by
      rw [hs.1] at hp
      cases hp
    exact ⟨h.grows.running.trans hs.1, h.onCycles hw hs.2⟩
  exact (h.invariant hp ⟨hrun, hs⟩).2

theorem after_onCycles {sheet : Sheet} (hfit : sheet.NumeralsFit) (requests : List Request) :
    OnCycles sheet.source (after sheet requests) := by
  obtain ⟨answers, h⟩ := answers_after hfit.regular requests
  exact h.onCycles rfl fun k hk => by cases hk

/-- **Cycle reports are sound.** Whatever a session has been asked for, a cell of which it has
recorded a cycle refers back to itself, directly or through other formulas. -/
theorem after_cycle_refers_back {sheet : Sheet} (hfit : sheet.NumeralsFit)
    (requests : List Request) {k : String}
    (h : ((after sheet requests).errors.get? k).map CellError.message = some "#CYCLE!") :
    TransGen sheet.source.RefersTo k k := by
  obtain ⟨e, he, hmessage⟩ := Option.map_eq_some_iff.mp h
  rw [CellError.message_eq_cycle.mp hmessage] at he
  exact after_onCycles hfit requests k he

/-- A sheet in which the formula in A1 reads B1 in a branch, and B1 reads A1. -/
def branching : Sheet :=
  .small [("A1", .text "=IF(1,B1,0)"), ("B1", .text "=A1")]

theorem branching_fits : branching.NumeralsFit := Sheet.numeralsFit_of_short (by decide)

theorem branching_first : branching.source.HasFormula "A1" ∧ branching.source.ahead "A1" = [] ∧
    branching.source.inquiry "A1" = .ask "B1" fun v => .answer (.ok v) := by
  obtain ⟨hform, hat⟩ := Sheet.formula_of_mem (s := branching) (l := "A1") (t := "=IF(1,B1,0)")
    (by decide) (by decide) rfl
  have htree : Formula.ofText "=IF(1,B1,0)" =
      .ok (.call "IF" [.literal (.int 1), .cell "B1", .literal (.int 0)]) := rfl
  have hif : Expr.isConditional "IF" = true := by decide
  refine ⟨hform, ?_, ?_⟩
  · unfold Source.ahead dependencies
    rw [hat, htree]
    simp [Expr.eagerReferences, Expr.collect, Expr.eagerArguments, hif, expand]
  · unfold Source.inquiry
    rw [hat, Formula.inquiry_of_tree htree, Expr.inquiry, Expr.evaluate, if_pos hif]
    rfl

theorem branching_second : branching.source.HasFormula "B1" ∧
    branching.source.ahead "B1" = ["A1"] ∧
    branching.source.inquiry "B1" = .ask "A1" fun v => .answer (.ok v) := by
  obtain ⟨hform, hat⟩ := Sheet.formula_of_mem (s := branching) (l := "B1") (t := "=A1")
    (by decide) (by decide) rfl
  have htree : Formula.ofText "=A1" = .ok (.cell "A1") := rfl
  refine ⟨hform, ?_, ?_⟩
  · unfold Source.ahead dependencies
    rw [hat, htree]
    simp [Expr.eagerReferences, Expr.collect, Reference.addTo, Reference.labels, expand]
  · unfold Source.inquiry
    rw [hat, Formula.inquiry_of_tree htree]
    rfl

/-- Reading A1 computes B1 in the branch, which comes back to A1. -/
theorem branching_cycle : (after branching [.cell "A1"]).errors.get? "A1" = some .cycle := by
  obtain ⟨hA, haheadA, hinquiryA⟩ := branching_first
  obtain ⟨hB, haheadB, hinquiryB⟩ := branching_second
  obtain ⟨v, s, hv, h⟩ := read_does branching_fits.regular "A1" {}
  have hs : after branching [.cell "A1"] = s := congrArg Prod.snd (hv.bind (gives_pure () s))
  let first : State := State.mark "A1" {}
  let both : State := State.mark "B1" first
  let done := settle "B1" (.ok (.int 0)) (both.fail "A1" .cycle)
  have haheadA : Does branching.source branching.source.ahead
      (.prefetch (branching.source.ahead "A1")) first first := by
    rw [haheadA]
    exact .nothing
  -- B1 finds A1 running, both before and while its formula runs
  have haheadB : Does branching.source branching.source.ahead
      (.prefetch (branching.source.ahead "B1")) both both := by
    rw [haheadB]
    exact .skip (isSettled_iff.mpr (Or.inr (Or.inr (by simp [both, first])))) .nothing
  have hrunB : Does branching.source branching.source.ahead
      (.run (branching.source.inquiry "B1") (.ok (.int 0))) both (both.fail "A1" .cycle) := by
    rw [hinquiryB]
    exact .ask (.closed (by simp [both, first]) (by simp [both, first])) .answer
  have hcomputeB : Does branching.source branching.source.ahead (.compute "B1") first
      (done.2.unmark "B1") :=
    .compute (isSettled_eq_false_iff.mpr ⟨hB, by simp [first], by simp [first]⟩) haheadB hrunB
  have hrunA : Does branching.source branching.source.ahead
      (.run (branching.source.inquiry "A1") (.ok done.1)) first (done.2.unmark "B1") := by
    rw [hinquiryA]
    exact .ask (.start hcomputeB (by rw [memo_unmark, memo_settle_self])) .answer
  have hcomputeA := Does.compute (s := {}) (isSettled_eq_false_iff.mpr ⟨hA, by simp, by simp⟩)
    haheadA hrunA
  have hread := Does.start hcomputeA (by rw [memo_unmark, memo_settle_self])
  rw [hs, (h.det hread (show Label.normalize "A1" = "A1" by decide)).2]
  exact OrderedMap.get?_insert_self _ _ _

theorem after_cycle_refers_back_branching :
    ((after branching [.cell "A1"]).errors.get? "A1").map CellError.message = some "#CYCLE!" ∧
      TransGen branching.source.RefersTo "A1" "A1" := by
  have h : ((after branching [.cell "A1"]).errors.get? "A1").map CellError.message =
      some "#CYCLE!" := by rw [branching_cycle]; rfl
  exact ⟨h, after_cycle_refers_back branching_fits _ h⟩

end Session

end Spreadsheet
