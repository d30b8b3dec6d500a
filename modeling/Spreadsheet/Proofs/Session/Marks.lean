import Spreadsheet.Proofs.Session.Failures
import Spreadsheet.Proofs.Session.NotedRequests

/-! # Marks that are left over

The cells that are marked as running while a cell is read are unmarked again, however the reading
ends, but for cells whose own formula holds a numeral that is too long: such a cell is marked before
its dependencies turn out to be untold, and stays marked (`Performs.marks`). If it is read later, it
seems to run, and a cycle is recorded of it, although it refers to nothing. No other cell has a
cycle recorded of it that is not there (`after_restores_marks`).

* `Marked`: the marks after a computation.
* `LedTo`: the running cells lead to what is read or computed next, but for those left marked. -/

namespace Spreadsheet

open Relation (TransGen)

theorem Source.RefersTo.normalize {src : Source} {c l : String} (h : src.RefersTo c l) :
    Label.normalize l = l := by
  obtain ⟨-, e, he, r, hr, hl⟩ := h
  have hplain := Formula.plainCells_of_ofText he
  exact (hplain.plain_of_covers (Expr.mem_mentions_of_mem_references hr) hl).normalize

namespace Session

/-- **The marks after a computation** are those before and those of stuck cells. -/
def Marked (src : Source) (s t : State) : Prop :=
  ∃ left, t.running = left ++ s.running ∧ ∀ k ∈ left, src.HasFormula k ∧ src.Stuck k

/-- All running cells lead to the cell by references, but for stuck ones. -/
def LedTo (src : Source) (s : State) (l : String) : Prop :=
  ∀ p ∈ s.running, src.Stuck p ∨ TransGen src.RefersTo p l

/-- The errand is about cells that the running cells lead to. -/
def Errand.LedTo (src : Source) (s : State) : Errand → Prop
  | prefetch labels _ => ∀ l ∈ labels, Session.LedTo src s l
  | compute key _ => Session.LedTo src s key
  | run q _ => q.AsksOnly fun l => Session.LedTo src s (Label.normalize l)
  | read key _ => Session.LedTo src s key

/-- Every cell of which a cycle is recorded is stuck or lies on a cycle of references. -/
def CyclesTold (src : Source) (s : State) : Prop :=
  ∀ k, s.errors.get? k = some .cycle → src.Stuck k ∨ TransGen src.RefersTo k k

variable {src : Source} {s t u : State} {key : String} {ran : List String}

/-! ### Marks -/

theorem Marked.refl (src : Source) (s : State) : Marked src s s :=
  ⟨[], rfl, fun _ h => by cases h⟩

theorem Marked.trans (h : Marked src s t) (h' : Marked src t u) : Marked src s u := by
  obtain ⟨left, hleft, hstuck⟩ := h
  obtain ⟨left', hleft', hstuck'⟩ := h'
  refine ⟨left' ++ left, by rw [hleft', hleft, List.append_assoc], fun k hk => ?_⟩
  rcases List.mem_append.mp hk with hk | hk
  · exact hstuck' k hk
  · exact hstuck k hk

/-- A cell that was marked is unmarked, and the marks below it stand. -/
theorem Marked.unmark (h : Marked src (s.mark key) t) (hkey : key ∉ s.running) :
    Marked src s (t.unmark key) := by
  obtain ⟨left, hleft, hstuck⟩ := h
  have hbelow : s.running.filter (· != key) = s.running :=
    List.filter_eq_self.mpr fun l hl => bne_iff_ne.mpr fun h => hkey (h ▸ hl)
  refine ⟨left.filter (· != key), ?_, fun k hk => hstuck k (List.mem_of_mem_filter hk)⟩
  simp [State.unmark, hleft, hbelow]

/-- **Only stuck cells are left marked**, however a computation ends. -/
theorem Performs.marks {errand : Errand} (h : Performs src errand s ran t) : Marked src s t := by
  induction h with
  | nothing | answer | remembered | closed | literal | startStuck => exact Marked.refl src _
  | skip _ _ ih | broken _ ih | askFails _ ih | start _ _ ih | startFails _ ih => exact ih
  | visit _ _ ih ih' | ask _ _ ih ih' => exact ih.trans ih'
  | @stuck l ls f s hl hf =>
    refine ⟨[l], rfl, fun k hk => ?_⟩
    obtain rfl := List.mem_singleton.mp hk
    exact ⟨(isSettled_eq_false_iff.mp hl).1, f, hf⟩
  | @compute key labels r s ran t ran' u hkey _ _ _ ih ih' =>
    refine Marked.unmark ?_ (isSettled_eq_false_iff.mp hkey).2.2
    obtain ⟨left, hleft, hstuck⟩ := ih.trans ih'
    exact ⟨left, by rw [running_settle, hleft], hstuck⟩
  | givesUp hkey _ _ ih => exact ih.unmark (isSettled_eq_false_iff.mp hkey).2.2

theorem Marked.eq_of_not_stuck (h : Marked src s t)
    (hsrc : ∀ k, src.HasFormula k → ¬ src.Stuck k) : t.running = s.running := by
  obtain ⟨left, hleft, hstuck⟩ := h
  have hnil : left = [] :=
    List.eq_nil_iff_forall_not_mem.mpr fun k hk => hsrc k (hstuck k hk).1 (hstuck k hk).2
  rw [hleft, hnil, List.nil_append]

/-! ### Cycles -/

theorem LedTo.of_marked {l : String} (h : LedTo src s l) (hst : Marked src s t) :
    LedTo src t l := by
  obtain ⟨left, hleft, hstuck⟩ := hst
  intro p hp
  rw [hleft] at hp
  rcases List.mem_append.mp hp with hp | hp
  · exact Or.inl (hstuck p hp).2
  · exact h p hp

/-- The running cells lead to what a cell refers to once it runs. -/
theorem LedTo.mark {l : String} (h : LedTo src s key) (hl : src.RefersTo key l) :
    LedTo src (s.mark key) l := by
  rintro p (_ | ⟨_, hp⟩)
  · exact Or.inr (.single hl)
  · exact (h p hp).imp_right fun hpath => hpath.tail hl

/-- **A cycle is recorded only of a cell that leads back to itself**, or is stuck. -/
theorem Performs.cyclesTold {errand : Errand} (h : Performs src errand s ran t)
    (hled : errand.LedTo src s) (hs : CyclesTold src s) : CyclesTold src t := by
  induction h with
  | nothing | answer | remembered | literal | stuck | startStuck => exact hs
  | skip _ _ ih => exact ih (fun l hl => hled l (List.mem_cons_of_mem _ hl)) hs
  | visit hl _ ih ih' =>
    refine ih' (fun l hl' => ?_) (ih (hled _ List.mem_cons_self) hs)
    exact (hled l (List.mem_cons_of_mem _ hl')).of_marked hl.marks
  | broken _ ih => exact ih (hled _ List.mem_cons_self) hs
  | @compute key labels r s ran t ran' u hkey hlabels hp _ ih ih' =>
    have hform := (isSettled_eq_false_iff.mp hkey).1
    have ht : CyclesTold src t := by
      refine ih (fun l hl => LedTo.mark hled (hform.refersTo_of_mem_ahead ?_)) hs
      rwa [Source.ahead, hlabels]
    have hu : CyclesTold src u := by
      refine ih' (hform.asksOnly.mono fun l hl => ?_) ht
      rw [hl.normalize]
      exact (LedTo.mark hled hl).of_marked hp.marks
    exact fun k hk => hu k (cycle_of_settle hk)
  | givesUp hkey hlabels _ ih =>
    have hform := (isSettled_eq_false_iff.mp hkey).1
    refine ih (fun l hl => LedTo.mark hled (hform.refersTo_of_mem_ahead ?_)) hs
    rwa [Source.ahead, hlabels]
  | ask hl _ ih ih' =>
    exact ih' ((hled.2 _).mono fun l hl' => hl'.of_marked hl.marks) (ih hled.1 hs)
  | askFails _ ih => exact ih hled.1 hs
  | @closed key s _ hr =>
    intro k hk
    by_cases h : k = key
    · subst h
      exact hled k hr
    · exact hs k ((OrderedMap.get?_insert_of_ne h _ _).symm.trans hk)
  | start _ _ ih | startFails _ ih => exact ih hled hs

theorem Readings.cyclesTold (h : Readings src s ran t) (hs : Marked src {} s ∧ CyclesTold src s) :
    Marked src {} t ∧ CyclesTold src t := by
  have hread {key r s ran t} (h : Performs src (.read key r) s ran t)
      (hs : Marked src {} s ∧ CyclesTold src s) : Marked src {} t ∧ CyclesTold src t := by
    refine ⟨hs.1.trans h.marks, h.cyclesTold (fun p hp => ?_) hs.2⟩
    -- between requests only stuck cells are marked
    obtain ⟨left, hleft, hstuck⟩ := hs.1
    rw [hleft, List.append_nil] at hp
    exact Or.inl (hstuck p hp).2
  exact h.invariant hread hs

/-! ### Sessions -/

/-- **Marks are taken off again, but for stuck cells.** On every sheet and in every state, reading a
cell leaves the marks as they were, whether it comes to a value or to a fault, except that cells
with a numeral that keeps their dependencies from being told may stay marked. If there is no such
cell, the marks are as before. And after any requests, a cell of which a cycle is recorded lies on a
cycle of references or is such a cell. -/
theorem after_restores_marks (sheet : Sheet) :
    (∀ label s, ∃ r t, Gives (read sheet.source label) s r t ∧ Marked sheet.source s t) ∧
      ((∀ k, sheet.source.HasFormula k → ¬ sheet.source.Stuck k) → ∀ label s r t,
        Gives (read sheet.source label) s r t → t.running = s.running) ∧
      ∀ requests k, (after sheet requests).errors.get? k = some .cycle →
        sheet.source.Stuck k ∨ TransGen sheet.source.RefersTo k k := by
  have hread (label : String) (s : State) : ∃ r t, Gives (read sheet.source label) s r t ∧
      Marked sheet.source s t := by
    obtain ⟨r, ran, t, hr, ht⟩ := read_performs (fun _ => Sheet.mem_formulas_of_hasFormula) label s
    exact ⟨r, t, hr, ht.marks⟩
  refine ⟨hread, fun hsrc label s r t h => ?_, fun requests => ?_⟩
  · obtain ⟨r', t', h', hmarked⟩ := hread label s
    obtain ⟨-, rfl⟩ := Prod.mk.inj (h.symm.trans h')
    exact hmarked.eq_of_not_stuck hsrc
  · obtain ⟨ran, hreadings, -⟩ := readings_after sheet requests le_rfl le_rfl
    exact (hreadings.cyclesTold ⟨Marked.refl _ _, fun k hk => by cases hk⟩).2

theorem after_restores_marks_branching :
    (∀ k, branching.source.HasFormula k → ¬ branching.source.Stuck k) ∧
      ∀ label s r t, Gives (read branching.source label) s r t → t.running = s.running := by
  have hsrc (k : String) (hk : branching.source.HasFormula k) : ¬ branching.source.Stuck k := by
    rintro ⟨f, hf⟩
    cases (branching_fits.regular.dependencies k hk).symm.trans hf
  exact ⟨hsrc, (after_restores_marks branching).2.1 hsrc⟩

/-! ### A mark that is left over -/

/-- A sheet in which A1 reads B1, which holds a numeral of the given number of digits. -/
def blocked (digits : Nat) : Sheet :=
  .small [("A1", .text "=B1"), ("B1", .text (String.ofList ('=' :: List.replicate digits '1')))]

theorem blocked_first (digits : Nat) : (blocked digits).source.HasFormula "A1" ∧
    dependencies (formulaAt (blocked digits).source "A1") = .ok ["B1"] := by
  obtain ⟨hform, hat⟩ := Sheet.formula_of_mem (s := blocked digits) (l := "A1") (t := "=B1")
    (by simp [blocked, Sheet.small]) List.mem_cons_self rfl
  have htree : Formula.ofText "=B1" = .ok (.cell "B1") := rfl
  refine ⟨hform, ?_⟩
  rw [hat, dependencies, htree]
  simp [Expr.eagerReferences, Expr.collect, Reference.addTo, Reference.labels, expand, pure,
    Except.pure, bind, Except.bind]

theorem blocked_second {digits : Nat} (h : numeralLimit < digits) :
    (blocked digits).source.HasFormula "B1" ∧
      Formula.ofText (formulaAt (blocked digits).source "B1") = .error (.numeralTooLong digits) := by
  obtain ⟨hform, hat⟩ := Sheet.formula_of_mem (s := blocked digits) (l := "B1")
    (t := String.ofList ('=' :: List.replicate digits '1')) (by simp [blocked, Sheet.small])
    (List.mem_cons_of_mem _ List.mem_cons_self) (by simp [Scalar.isFormula, Text.isBlank])
  refine ⟨hform, ?_⟩
  rw [hat, Formula.ofText_digits (fun d hd => List.eq_of_mem_replicate hd ▸ by decide)
    (by simpa using h), List.length_replicate]

/-- **A mark that is left over**: reading A1 fails and leaves B1 marked. -/
theorem gives_blocked {digits : Nat} (h : numeralLimit < digits) : ∃ f t,
    Gives (read (blocked digits).source "A1") {} (.error f) t ∧ t.running = ["B1"] ∧
      t.memo = {} := by
  obtain ⟨hA, hdepsA⟩ := blocked_first digits
  obtain ⟨hB, htreeB⟩ := blocked_second h
  have hdepsB : dependencies (formulaAt (blocked digits).source "B1") =
      .error (.numeralTooLong digits) := by
    simp only [dependencies, htreeB]
  let first : State := State.mark "A1" {}
  have hsettledA : isSettled (blocked digits).source {} "A1" = false :=
    isSettled_eq_false_iff.mpr ⟨hA, by simp, by simp⟩
  have hsettledB : isSettled (blocked digits).source first "B1" = false :=
    isSettled_eq_false_iff.mpr ⟨hB, by simp [first], by simp [first]⟩
  have hread : Performs (blocked digits).source (.read "A1" (.error (.numeralTooLong digits))) {} []
      ((first.mark "B1").unmark "A1") :=
    .startFails (.givesUp hsettledA hdepsA (.stuck hsettledB hdepsB))
  obtain ⟨r, ran, t, hr, ht⟩ :=
    read_performs (fun _ => Sheet.mem_formulas_of_hasFormula (s := blocked digits)) "A1" {}
  rw [show Label.normalize "A1" = "A1" by decide] at ht
  obtain ⟨he, -, rfl⟩ := hread.det ht rfl
  cases he
  exact ⟨_, _, hr, by simp [first, State.mark, State.unmark], rfl⟩

/-- So marks are not restored on every exit, and a cycle may be recorded where there is none. -/
theorem not_restored_blocked :
    (¬ ∀ sheet requests label r t, Gives (read sheet.source label) (after sheet requests) r t →
      ∀ k, k ∈ t.running ↔ k ∈ (after sheet requests).running) ∧
    ¬ ∀ sheet requests k, (after sheet requests).errors.get? k = some .cycle →
      TransGen sheet.source.RefersTo k k := by
  have hlong : numeralLimit < 4301 := by decide
  obtain ⟨f, t, hA, hrun, hmemo⟩ := gives_blocked hlong
  refine ⟨fun h => ?_, fun h => ?_⟩
  · have hmem := (h (blocked 4301) [] "A1" _ t hA "B1").mp (by simp [hrun])
    cases hmem
  · have hlabel : Label.normalize "B1" = "B1" := by decide
    have hB : Gives (read (blocked 4301).source "B1") t (.ok (.int 0))
        (t.fail (Label.normalize "B1") .cycle) :=
      gives_look_closed (by simp [hmemo]) (by simp [hrun, hlabel])
    have hfirst : after (blocked 4301) [.cell "A1"] = t := congrArg Prod.snd hA.bind_error
    have hsecond : after (blocked 4301) ([.cell "A1"] ++ [.cell "B1"]) = t.fail "B1" .cycle := by
      rw [after_append, hfirst, ← hlabel]
      exact congrArg Prod.snd (hB.bind (gives_pure () _))
    have hcycle := h (blocked 4301) ([.cell "A1"] ++ [.cell "B1"]) "B1" (by
      rw [hsecond]
      exact OrderedMap.get?_insert_self _ _ _)
    obtain ⟨l, ⟨-, e, he, -⟩, -⟩ := TransGen.head'_iff.mp hcycle
    cases he.symm.trans (blocked_second hlong).2

end Session

end Spreadsheet
