import Spreadsheet.Proofs.Session.Recomputation

/-! # What remembered cells rest on

A cell that is read while it runs has a cycle recorded of it, and what is recorded of a cell is
never taken back (`Does.failed`). So every cell that a session remembers rests on literals, on cells
that have failed, and on cells remembered before it (`Grounded`, `Does.grounded`). In particular
cells without failure do not read one another in a circle, though the cells read ahead leave out
what is running (`after_no_silent_cycle`).

* `readsOver_eq`: what a formula reads over a table of values, told by a reader that notes it. -/

namespace Spreadsheet

open Relation (TransGen)

/-! ### What a formula reads -/

/-- The cells that a tree reads, in order, when it is evaluated over a table of values. -/
def Expr.readsOver (value : String → Scalar) (e : Expr) : List String :=
  let noting (label : String) : ExceptT Fault (StateM (List String)) Value := do
    modify (· ++ [label])
    return .scalar (value label)
  (StateT.run (e.evaluate noting).run []).2

/-- The cells that the formula at `c` reads over a table of values; none if it has no tree. -/
def Source.readsOver (src : Source) (value : String → Scalar) (c : String) : List String :=
  match Formula.ofText (Session.formulaAt src c) with
  | .ok tree => tree.readsOver value
  | .error _ => []

theorem Inquiry.runIn_noting {α : Type} (value : String → Scalar) (q : Inquiry (Except Fault α))
    (noted : List String) :
    StateT.run (q.runIn fun l => do
      modify (· ++ [l])
      (return value l : ExceptT Fault (StateM (List String)) Scalar)).run noted =
      (q.answerBy value, noted ++ q.readBy value) := by
  induction q generalizing noted with
  | answer r => exact congrArg (Prod.mk r) (List.append_nil noted).symm
  | ask l next ih =>
    refine (ih (value l) (noted ++ [l])).trans ?_
    rw [answerBy, readBy, List.append_assoc, List.singleton_append]

theorem Expr.readsOver_eq (value : String → Scalar) (e : Expr) :
    e.readsOver value = e.inquiry.readBy value := by
  have h := congrArg Prod.snd (Inquiry.runIn_noting value e.inquiry [])
  rw [← e.evaluate_eq_runIn, List.nil_append] at h
  simpa [readsOver] using h

/-- What a formula reads is what its inquiry asks for. -/
theorem Source.readsOver_eq (src : Source) (value : String → Scalar) (c : String) :
    src.readsOver value c = (src.inquiry c).readBy value := by
  rw [← Inquiry.asked_table, asked_inquiry, Inquiry.asked_table]
  unfold readsOver
  cases he : Formula.ofText (Session.formulaAt src c) with
  | ok e => rw [Formula.inquiry_of_tree he, ← e.readsOver_eq]
  | error f => rw [Formula.inquiry_of_fault he]; rfl

/-- A cell that the tree of the formula at `c` refers to outside the branches of conditions, ranges
expanded. -/
def Source.RefersEagerlyTo (src : Source) (c l : String) : Prop :=
  src.HasFormula c ∧ ∃ e, Formula.ofText (Session.formulaAt src c) = .ok e ∧
    ∃ r ∈ e.eagerReferences, r.Covers l

namespace Session

variable {src : Source} {ahead : String → List String} {s t u : State} {key : String}

/-! ### Failures stay -/

/-- Something is recorded of the cell. -/
def State.Failed (s : State) (l : String) : Prop :=
  ∃ e, s.errors.get? l = some e

theorem State.Failed.fail {l : String} (h : s.Failed l) (key : String) (e : CellError) :
    (s.fail key e).Failed l := by
  by_cases hl : l = key
  · exact ⟨e, hl ▸ OrderedMap.get?_insert_self _ _ _⟩
  · obtain ⟨e', he⟩ := h
    exact ⟨e', (OrderedMap.get?_insert_of_ne hl _ _).trans he⟩

theorem State.Failed.settle {l : String} (h : s.Failed l) (key : String)
    (r : Except Fault Scalar) : ((settle key r s).2.unmark key).Failed l := by
  cases r with
  | ok v => exact h
  | error f => exact h.fail key (.fault f)

/-- **What is recorded of a cell may change but is never taken back.** -/
theorem Does.failed {task : Task} (h : Does src ahead task s t) {l : String} (hl : s.Failed l) :
    t.Failed l := by
  induction h with
  | nothing | answer | remembered | literal => exact hl
  | skip _ _ ih | start _ _ ih => exact ih hl
  | visit _ _ ih ih' | ask _ _ ih ih' => exact ih' (ih hl)
  | compute _ _ _ ih ih' => exact (ih' (ih hl)).settle _ _
  | closed => exact hl.fail _ _

/-! ### Grounds -/

/-- Over what is known, the cell rests on literals and on cells that have failed. -/
inductive Grounded (src : Source) (s : State) : String → Prop
  | literal {l} (h : ¬ src.HasFormula l) : Grounded src s l
  | failed {l} (h : s.Failed l) : Grounded src s l
  | formula {c r} (hr : (src.inquiry c).resolve s.known = some r)
      (h : ∀ l ∈ (src.inquiry c).asked s.known, Grounded src s l) : Grounded src s c

/-- Everything remembered rests on literals and on cells that have failed. -/
def AllGrounded (src : Source) (s : State) : Prop :=
  ∀ c ∈ s.memo, Grounded src s c

theorem Grounded.mono (hle : s.known.Extends t.known) (hfailed : ∀ l, s.Failed l → t.Failed l)
    {c : String} (h : Grounded src s c) : Grounded src t c := by
  induction h with
  | literal h => exact .literal h
  | failed h => exact .failed (hfailed _ h)
  | formula hr _ ih =>
    exact .formula (Inquiry.resolve_mono hle hr) fun l hl =>
      ih l (Inquiry.asked_of_resolve hle hr ▸ hl)

/-- A cell that is known is remembered, or runs and has a cycle recorded of it. -/
theorem AllGrounded.of_known (hs : AllGrounded src s) {l : String} {v : Scalar}
    (h : s.known l = some v) : Grounded src s l := by
  rcases known_eq_some.mp h with h | ⟨-, -, -, he⟩
  · exact hs l (mem_of_memo h)
  · exact .failed he

theorem allGrounded_settle {r : Except Fault Scalar} (hs : AllGrounded src s)
    (hr : (src.inquiry key).resolve s.known = some r)
    (hle : s.known.Extends ((settle key r s).2.unmark key).known) :
    AllGrounded src ((settle key r s).2.unmark key) := by
  have hmono {l} : Grounded src s l → Grounded src ((settle key r s).2.unmark key) l :=
    Grounded.mono hle fun _ h => h.settle key r
  intro c hc
  rw [memo_unmark, memo_settle, Std.HashMap.mem_insert] at hc
  rcases hc with hc | hc
  · obtain rfl := eq_of_beq hc
    refine hmono (.formula hr fun l hl => ?_)
    obtain ⟨v, hv⟩ := Inquiry.known_of_mem_asked hr hl
    exact hs.of_known hv
  · exact hmono (hs c hc)

/-- **What a session remembers is grounded.** -/
theorem Does.grounded {task : Task} (h : Does src ahead task s t) (hs : Sound src s)
    (hg : AllGrounded src s) : AllGrounded src t := by
  induction h with
  | nothing | answer | remembered => exact hg
  | skip _ _ ih | start _ _ ih => exact ih hs hg
  | visit h _ ih ih' | ask h _ ih ih' => exact ih' (h.sound hs).1 (ih hs hg)
  | @compute key r s t u hkey hp hq ih ih' =>
    obtain ⟨hm, hsm⟩ := sound_mark hs hkey
    have hgm : AllGrounded src (s.mark key) := fun c hc => (hg c hc).mono hsm fun _ h => h
    have ht := (hp.sound hm).1
    obtain ⟨hu, -, hr⟩ := hq.sound ht
    have hrun : u.running = key :: s.running := hq.grows.running.trans hp.grows.running
    have hle := (sound_settle hu hrun (isSettled_eq_false_iff.mp hkey).2.2 hr).2
    exact allGrounded_settle (ih' ht (ih hm hgm)) hr hle
  | @closed key s hm hr =>
    have hle := (sound_fail hs hm hr).2
    exact fun c hc => (hg c hc).mono hle fun _ h => h.fail key .cycle
  | @literal key s hm _ hf =>
    have hle := (sound_remember hs hm hf).2
    intro c hc
    rcases Std.HashMap.mem_insert.mp hc with hc | hc
    · exact .literal (eq_of_beq hc ▸ hf)
    · exact (hg c hc).mono hle fun _ h => h

theorem Answers.grounded {answers : List (String × Scalar)} (h : Answers src ahead answers s t)
    (hs : Sound src s) (hg : AllGrounded src s) : AllGrounded src t := by
  have hp {key v s t} (h : Does src ahead (.read key v) s t)
      (hs : Sound src s ∧ AllGrounded src s) : Sound src t ∧ AllGrounded src t :=
    ⟨(h.sound hs.1).1, h.grounded hs.1 hs.2⟩
  exact (h.invariant hp ⟨hs, hg⟩).2

theorem allGrounded_empty (src : Source) : AllGrounded src {} :=
  fun c hc => by simp at hc

theorem after_allGrounded {sheet : Sheet} (hfit : sheet.NumeralsFit) (requests : List Request) :
    AllGrounded sheet.source (after sheet requests) := by
  obtain ⟨answers, h⟩ := answers_after hfit.regular requests
  exact h.grounded (sound_empty _) (allGrounded_empty _)

/-! ### Circles of cells without failure -/

/-- The formula at the cell has been computed, and nothing is recorded of it. -/
def Clean (src : Source) (s : State) (c : String) : Prop :=
  Computed src s c ∧ ¬ s.Failed c

/-- Between cells without failure, the formula at `c` reads `l` over the values of the session. -/
def ReadsCleanly (src : Source) (s : State) (c l : String) : Prop :=
  Clean src s c ∧ Clean src s l ∧ l ∈ src.readsOver (s.valueAt src) c

/-- Between cells without failure, the formula at `c` refers to `l` outside its branches. -/
def RefersCleanly (src : Source) (s : State) (c l : String) : Prop :=
  Clean src s c ∧ Clean src s l ∧ src.RefersEagerlyTo c l

theorem Sound.readsOver_eq (hs : Sound src s) {c : String} (hc : Computed src s c) :
    src.readsOver (s.valueAt src) c = (src.inquiry c).asked s.known := by
  obtain ⟨-, r, -, hr, -⟩ := hs.answered hc
  rw [Source.readsOver_eq, Inquiry.readBy_of_resolve (known_extends_valueAt s) hr]

theorem Grounded.acyclic (hs : Sound src s) {c : String} (h : Grounded src s c) :
    ¬ TransGen (ReadsCleanly src s) c c := by
  induction h with
  | literal h =>
    intro hloop
    obtain ⟨l, ⟨hc, -⟩, -⟩ := TransGen.head'_iff.mp hloop
    exact h hc.1.1
  | failed h =>
    intro hloop
    obtain ⟨l, ⟨hc, -⟩, -⟩ := TransGen.head'_iff.mp hloop
    exact hc.2 h
  | formula _ _ ih =>
    intro hloop
    obtain ⟨l, hread, hback⟩ := TransGen.head'_iff.mp hloop
    have hl := hread.2.2
    rw [hs.readsOver_eq hread.1.1] at hl
    exact ih l hl (.tail' hback hread)

/-- A formula without failure reads what it refers to outside its branches. -/
theorem RefersCleanly.readsCleanly (hs : Sound src s) {c l : String}
    (h : RefersCleanly src s c l) : ReadsCleanly src s c l := by
  obtain ⟨hc, hl, -, e, he, r, hr, hcovers⟩ := h
  refine ⟨hc, hl, ?_⟩
  obtain ⟨v, x, -, hx, hrecorded⟩ := hs.answered hc.1
  have hnone : s.errors.get? c = none := Option.eq_none_iff_forall_ne_some.mpr fun e he =>
    hc.2 ⟨e, he⟩
  rw [hnone] at hrecorded
  obtain rfl : x = .ok v := hrecorded
  rw [hs.readsOver_eq hc.1]
  exact mem_asked_of_eagerReference he hr hcovers hx

/-- **No circular dependency is resolved silently.** After any requests, the formulas of cells that
have been computed without failure do not read one another in a circle, over the values of the
session; nor do they refer to one another in a circle outside their branches. -/
theorem after_no_silent_cycle {sheet : Sheet} (hfit : sheet.NumeralsFit)
    (requests : List Request) :
    (∀ c, ¬ TransGen (ReadsCleanly sheet.source (after sheet requests)) c c) ∧
      ∀ c, ¬ TransGen (RefersCleanly sheet.source (after sheet requests)) c c := by
  have hs := (after_sound hfit requests).1
  have hreads : ∀ c, ¬ TransGen (ReadsCleanly sheet.source (after sheet requests)) c c := by
    intro c hloop
    obtain ⟨l, ⟨hc, -⟩, -⟩ := TransGen.head'_iff.mp hloop
    exact (after_allGrounded hfit requests c hc.1.2).acyclic hs hloop
  refine ⟨hreads, fun c hloop => hreads c ?_⟩
  exact TransGen.mono (fun _ _ h => h.readsCleanly hs) c c hloop

theorem after_no_silent_cycle_looped : looped.NumeralsFit ∧
    (∀ c, ¬ TransGen (ReadsCleanly looped.source (after looped [.cell "b1", .all])) c c) ∧
      ∀ c, ¬ TransGen (RefersCleanly looped.source (after looped [.cell "b1", .all])) c c := by
  have hfit : looped.NumeralsFit := Sheet.numeralsFit_of_short (by decide)
  exact ⟨hfit, after_no_silent_cycle hfit _⟩

end Session

end Spreadsheet
