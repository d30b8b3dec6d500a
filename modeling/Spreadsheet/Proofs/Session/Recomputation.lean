import Spreadsheet.Proofs.Session.Requests

/-! # Recomputing what a session has found

The formula of a cell can be evaluated once more over the values that a session has remembered at
its end. Although the session has computed the cell while others were still running, the result is
what it has recorded of the cell (`after_locallyConsistent`), cyclic or not. -/

namespace Spreadsheet.Session

/-- The formula at a cell, evaluated over the values remembered; nothing if one of them lacks. -/
def recompute (src : Source) (s : State) (c : String) : Option (Except Fault Value) :=
  match Formula.ofText (formulaAt src c) with
  | .ok tree => (tree.evaluate (Expr.tableReader fun l => s.memo[l]?)).run
  | .error f => some (.error f)

/-- **Every formula cell that is remembered agrees with its formula over the values remembered.** A
cell without failure has the value that its formula comes to. The failure of a formula is the one
that the formula meets, or is the list that it comes to. A cell with a failure reads as 0. -/
def LocallyConsistent (src : Source) (s : State) : Prop :=
  ∀ (c : String) (v : Scalar), src.HasFormula c → s.memo[c]? = some v →
    match s.errors.get? c with
    | none => recompute src s c = some (.ok (.scalar v))
    | some (.fault f) => v = .int 0 ∧ (recompute src s c = some (.error f) ∨
        ∃ items, recompute src s c = some (.ok (.list items)) ∧
          f = .rangeAsValue (bodyText (formulaAt src c)))
    | some .cycle => v = .int 0

variable {src : Source} {s : State} {c : String}

theorem recompute_eq_resolve (src : Source) (s : State) (c : String) :
    recompute src s c = (Formula.inquiry (formulaAt src c)).resolve fun l => s.memo[l]? := by
  unfold recompute Formula.inquiry
  cases Formula.ofText (formulaAt src c) with
  | ok tree => exact tree.evaluate_tableReader _
  | error f => rfl

/-- Between requests, what is known is what is remembered. -/
theorem known_eq_memo (hrun : s.running = []) : s.known = fun l => s.memo[l]? := by
  funext l
  cases h : s.memo[l]? with
  | some v => exact known_of_memo h
  | none =>
    unfold State.known
    simp [h, hrun]

/-- What a cell takes from its formula tells what the formula came to, if it was no map. -/
theorem cellResult_eq_error {text : String} {x : Except Fault Value} {f : Fault}
    (hflat : ∀ v, x = .ok v → (∃ w, v = .scalar w) ∨ ∃ items, v = .list items)
    (h : (cellResult text x : Except Fault Scalar) = .error f) :
    x = .error f ∨ ∃ items, x = .ok (.list items) ∧ f = .rangeAsValue (bodyText text) := by
  cases x with
  | error g => exact Or.inl (congrArg _ (Except.error.inj h))
  | ok v =>
    rcases hflat v rfl with ⟨w, rfl⟩ | ⟨items, rfl⟩
    · cases h
    · exact Or.inr ⟨items, rfl, (Except.error.inj h).symm⟩

theorem cellResult_eq_ok {text : String} {x : Except Fault Value} {w : Scalar}
    (h : cellResult text x = .ok w) : x = .ok (.scalar w) := by
  cases x with
  | error g => cases h
  | ok v =>
    cases v with
    | scalar u =>
      obtain rfl : u = w := Except.ok.inj h
      rfl
    | list | map => cases h

/-- The formulas of a sheet whose numerals fit come to scalars and lists. -/
theorem flat_of_resolve {sheet : Sheet} (hs : sheet.NumeralsFit)
    (hc : sheet.source.HasFormula c) {known : Knowledge} {v : Value}
    (h : (Formula.inquiry (formulaAt sheet.source c)).resolve known = some (.ok v)) :
    (∃ w, v = .scalar w) ∨ ∃ items, v = .list items := by
  rcases hs.parsed_or_refused hc with ⟨e, he, hparsed⟩ | ⟨f, hf, -⟩
  · rw [Formula.inquiry_of_tree he] at h
    have hall := Expr.Parsed.comesWithin (p := fun _ => True) (fun _ => trivial) (fun _ => trivial)
      e hparsed
    rcases hall.of_resolve (fun _ _ _ _ => trivial) h with ⟨w, hw, -⟩ | hitems
    · exact Or.inl ⟨w, hw⟩
    · exact Or.inr hitems
  · rw [Formula.inquiry_of_fault hf] at h
    cases h

theorem Sound.locallyConsistent {sheet : Sheet} (hfit : sheet.NumeralsFit)
    (hs : Sound sheet.source s) (hrun : s.running = []) : LocallyConsistent sheet.source s := by
  intro c v hc hv
  obtain ⟨r, hr, hrecorded⟩ := hs.formula c v hc hv
  obtain ⟨x, hx, rfl⟩ := resolve_inquiry hr
  have hrecompute : recompute sheet.source s c = some x := by
    rw [recompute_eq_resolve, ← known_eq_memo hrun, hx]
  rw [hrecompute]
  rcases he : s.errors.get? c with _ | _ | f
  · rw [he] at hrecorded
    exact congrArg some (cellResult_eq_ok hrecorded)
  · rw [he] at hrecorded
    exact hrecorded.2
  · rw [he] at hrecorded
    refine ⟨hrecorded.2, ?_⟩
    rcases cellResult_eq_error (fun w hw => flat_of_resolve hfit hc (hw ▸ hx)) hrecorded.1 with
      rfl | ⟨items, rfl, hf⟩
    · exact Or.inl rfl
    · exact Or.inr ⟨items, rfl, hf⟩

/-- What a session over a sheet has come to: a sound state in which nothing runs. -/
theorem after_sound {sheet : Sheet} (hfit : sheet.NumeralsFit) (requests : List Request) :
    Sound sheet.source (after sheet requests) ∧ (after sheet requests).running = [] := by
  obtain ⟨answers, h⟩ := answers_after hfit.regular requests
  exact ⟨(h.sound (sound_empty _)).1, h.grows.running⟩

/-- **After any requests, every formula cell that is remembered agrees with its formula.** -/
theorem after_locallyConsistent {sheet : Sheet} (hfit : sheet.NumeralsFit)
    (requests : List Request) : LocallyConsistent sheet.source (after sheet requests) :=
  (after_sound hfit requests).1.locallyConsistent hfit (after_sound hfit requests).2

/-- A sheet whose formulas in A1 and B1 read each other, and whose formula in C1 fails. -/
def looped : Sheet :=
  .small [("A1", .text "=B1+1"), ("B1", .text "=A1+1"), ("C1", .text "=SUM(A0:A1)")]

theorem after_locallyConsistent_looped : looped.NumeralsFit ∧
    LocallyConsistent looped.source (after looped [.cell "b1", .range "A1" "C1", .all]) := by
  have hfit : looped.NumeralsFit := Sheet.numeralsFit_of_short (by decide)
  exact ⟨hfit, after_locallyConsistent hfit _⟩

end Spreadsheet.Session
