import Spreadsheet.Proofs.Formula.Occurrence

/-! # Direct formulas

A tree without `IF` asks for the cells of its references in the order in which these stand in it,
unless it ends with a fault (`expands_evaluate`). So a tree that has no `IF`, or is one whose
condition has none, asks for what it reads in any case before it asks for anything else
(`Direct.asked`). -/

namespace Spreadsheet

/-- The labels are those of the references, in their order. -/
inductive Reference.Expands : List Reference → List String → Prop
  | nil : Expands [] []
  | cons {r rs labels rest} (h : r.labels = .ok labels) (hrest : Expands rs rest) :
      Expands (r :: rs) (labels ++ rest)

theorem Reference.Expands.append {rs rs' : List Reference} {labels labels' : List String}
    (h : Expands rs labels) (h' : Expands rs' labels') :
    Expands (rs ++ rs') (labels ++ labels') := by
  induction h with
  | nil => exact h'
  | cons h _ ih =>
    rw [List.cons_append, List.append_assoc]
    exact .cons h ih

theorem Reference.expands_single {r : Reference} {labels : List String}
    (h : r.labels = .ok labels) : Expands [r] labels := by
  simpa using Expands.cons h .nil

namespace Expr

open Reference (Expands expands_single)

/-- A tree without `IF`. -/
inductive Unconditional : Expr → Prop
  | literal {v} : Unconditional (.literal v)
  | cell {label} : Unconditional (.cell label)
  | range {start stop} : Unconditional (.range start stop)
  | neg {e} (h : Unconditional e) : Unconditional (.neg e)
  | binary {op l r} (hl : Unconditional l) (hr : Unconditional r) : Unconditional (.binary op l r)
  | unsupported {symbol l r} (hl : Unconditional l) (hr : Unconditional r) :
      Unconditional (.unsupported symbol l r)
  | call {name args} (hname : isConditional name = false) (h : ∀ e ∈ args, Unconditional e) :
      Unconditional (.call name args)
  | foreign {kind} : Unconditional (.foreign kind)

/-- A tree without `IF`, or an `IF` with such a condition. -/
inductive Direct : Expr → Prop
  | unconditional {e} (h : Unconditional e) : Direct e
  | conditional {name args} (hname : isConditional name = true)
      (h : ∀ e ∈ args.take 1, Unconditional e) : Direct (.call name args)

variable {known : Knowledge}

theorem asked_pure {α : Type} (a : α) :
    (pure a : ExceptT Fault Inquiry α).run.asked known = [] := rfl

theorem asked_pureResult {α : Type} (r : Except Fault α) :
    (pureResult r : ExceptT Fault Inquiry α).run.asked known = [] := rfl

/-- Two operands ask one after the other. -/
theorem asked_operands {x y : ExceptT Fault Inquiry Value}
    {g : Number → Number → Except Fault Value} {b : Value} (h : (do
      let a ← pureResult (← x).toNumber
      let b ← pureResult (← y).toNumber
      pureResult (g a b) : ExceptT Fault Inquiry Value).run.resolve known = some (.ok b)) :
    ∃ v w, x.run.resolve known = some (.ok v) ∧ y.run.resolve known = some (.ok w) ∧
      (do
        let a ← pureResult (← x).toNumber
        let b ← pureResult (← y).toNumber
        pureResult (g a b) : ExceptT Fault Inquiry Value).run.asked known =
          x.run.asked known ++ y.run.asked known := by
  obtain ⟨v, hv, h, he⟩ := resolve_run_bind h
  obtain ⟨m, -, h, he'⟩ := resolve_run_bind h
  obtain ⟨w, hw, h, he''⟩ := resolve_run_bind h
  obtain ⟨n, -, -, he'''⟩ := resolve_run_bind h
  refine ⟨v, w, hv, hw, ?_⟩
  rw [he, he', he'', he''', asked_pureResult, asked_pureResult, asked_pureResult, List.nil_append,
    List.append_nil, List.append_nil]

mutual

/-- **A tree without `IF` asks for its references in order.** -/
theorem expands_evaluate : ∀ (e : Expr) {v : Value}, e.Unconditional →
    (e.evaluate Inquiry.cell).run.resolve known = some (.ok v) →
      Expands e.eagerMentions ((e.evaluate Inquiry.cell).run.asked known)
  | .literal v, _, _, _ => by
    rw [eagerMentions, occurrences]
    exact .nil
  | .cell label, _, _, h => by
    obtain ⟨w, hw, -⟩ := Option.bind_eq_some_iff.mp h
    have hasked : ((cell label).evaluate Inquiry.cell).run.asked known = [label] := by
      simp only [evaluate]
      simp [Inquiry.cell, Inquiry.asked, hw]
    rw [hasked, eagerMentions, occurrences]
    exact expands_single rfl
  | .range start stop, _, _, h => by
    rw [evaluate] at h ⊢
    rw [eagerMentions, occurrences]
    exact expands_single (asked_readRange h)
  | .neg e, _, he, h => by
    cases he with
    | neg he =>
      rw [evaluate] at h ⊢
      obtain ⟨v, hv, h, hasked⟩ := resolve_run_bind h
      obtain ⟨n, -, -, hasked'⟩ := resolve_run_bind h
      rw [hasked, hasked', asked_pureResult, asked_pure, List.append_nil, List.append_nil,
        eagerMentions, occurrences]
      exact expands_evaluate e he hv
  | .binary op l r, _, he, h => by
    cases he with
    | binary hl hr =>
      rw [evaluate] at h ⊢
      obtain ⟨v, w, hv, hw, hasked⟩ := asked_operands h
      rw [hasked, eagerMentions, occurrences]
      exact (expands_evaluate l hl hv).append (expands_evaluate r hr hw)
  | .unsupported symbol l r, _, he, h => by
    cases he with
    | unsupported hl hr =>
      rw [evaluate] at h ⊢
      obtain ⟨v, w, hv, hw, hasked⟩ := asked_operands h
      rw [hasked, eagerMentions, occurrences]
      exact (expands_evaluate l hl hv).append (expands_evaluate r hr hw)
  | .call name args, _, he, h => by
    cases he with
    | call hname hargs =>
      rw [evaluate] at h ⊢
      simp only [hname, Bool.false_eq_true, if_false] at h ⊢
      obtain ⟨vs, hvs, -, hasked⟩ := resolve_run_bind h
      rw [hasked, asked_pureResult, List.append_nil, eagerMentions_call, eagerArguments,
        if_neg (by simp [hname])]
      exact expands_evaluateList args hargs hvs
  | .foreign kind, _, _, _ => by
    rw [eagerMentions, occurrences]
    exact .nil

theorem expands_evaluateList : ∀ (es : List Expr) {vs : List Value}, (∀ e ∈ es, e.Unconditional) →
    (evaluateList Inquiry.cell es).run.resolve known = some (.ok vs) →
      Expands (es.flatMap eagerMentions) ((evaluateList Inquiry.cell es).run.asked known)
  | [], _, _, _ => .nil
  | e :: rest, _, hes, h => by
    rw [evaluateList] at h ⊢
    obtain ⟨v, hv, h, hasked⟩ := resolve_run_bind h
    obtain ⟨vs, hvs, -, hasked'⟩ := resolve_run_bind h
    rw [hasked, hasked', asked_pure, List.append_nil, List.flatMap_cons]
    exact (expands_evaluate e (hes e (by simp)) hv).append
      (expands_evaluateList rest (fun d hd => hes d (by simp [hd])) hvs)

end

/-- An `IF` asks for what its condition asks for, then for more. -/
theorem asked_evaluateConditional : ∀ {es : List Expr} {v : Value},
    (∀ e ∈ es.take 1, e.Unconditional) →
    (evaluateConditional Inquiry.cell es).run.resolve known = some (.ok v) → ∃ labels more,
      Expands ((es.take 1).flatMap eagerMentions) labels ∧
        (evaluateConditional Inquiry.cell es).run.asked known = labels ++ more
  | [], _, _, _ => ⟨[], [], .nil, rfl⟩
  | [condition], _, hes, h => by
    rw [evaluateConditional] at h ⊢
    obtain ⟨c, hc, -, hasked⟩ := resolve_run_bind h
    exact ⟨_, _, by simpa using expands_evaluate condition (hes _ (by simp)) hc, hasked⟩
  | [condition, yes], _, hes, h => by
    rw [evaluateConditional] at h ⊢
    obtain ⟨c, hc, -, hasked⟩ := resolve_run_bind h
    exact ⟨_, _, by simpa using expands_evaluate condition (hes _ (by simp)) hc, hasked⟩
  | condition :: yes :: no :: _, _, hes, h => by
    rw [evaluateConditional] at h ⊢
    obtain ⟨c, hc, -, hasked⟩ := resolve_run_bind h
    exact ⟨_, _, by simpa using expands_evaluate condition (hes _ (by simp)) hc, hasked⟩

/-- **A direct tree asks first for what it reads in any case.** -/
theorem Direct.asked {e : Expr} {v : Value} (he : e.Direct)
    (h : e.inquiry.resolve known = some (.ok v)) : ∃ labels more,
      Expands e.eagerMentions labels ∧ e.inquiry.asked known = labels ++ more := by
  cases he with
  | unconditional he => exact ⟨_, [], expands_evaluate e he h, (List.append_nil _).symm⟩
  | @conditional name args hname hargs =>
    unfold inquiry at h ⊢
    rw [evaluate] at h ⊢
    simp only [hname, if_true] at h ⊢
    rw [eagerMentions_call, eagerArguments, if_pos hname]
    exact asked_evaluateConditional hargs h

end Expr

end Spreadsheet
