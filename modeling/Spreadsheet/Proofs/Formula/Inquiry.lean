import Spreadsheet.Formula.Evaluation
import Mathlib.Data.List.Basic
import Mathlib.Data.Option.Basic

/-! # Formulas as inquiries

A formula is evaluated by a reader of cells. What it does with any reader is told by an *inquiry*:
an answer, or a question for one cell and an inquiry for each value that the cell may have. The
questions after the first depend on the values before, since `IF` reads one of its branches and a
fault ends the evaluation.

* `Transfer.evaluate`: what the readings of cells have in common, with another reader or by
  themselves, evaluations have in common.
* `evaluate_eq_runIn`: evaluation by a reader in any monad is the run of the tree's inquiry.
* `resolve known`: the answer, if the cells asked for are known; `asked known`: the cells asked for,
  up to the first unknown one. More knowledge changes neither (`resolve_mono`, `asked_of_resolve`).
* `evaluate_tableReader`: evaluation by a partial table of values is `resolve`. -/

namespace Spreadsheet

/-- A computation that asks for the values of cells, one after the other. -/
inductive Inquiry (α : Type) where
  | answer (a : α)
  | ask (label : String) (next : Scalar → Inquiry α)

/-- What is known about the values of cells. -/
abbrev Knowledge := String → Option Scalar

/-- The second knows what the first knows, and perhaps more. -/
def Knowledge.Extends (known more : Knowledge) : Prop :=
  ∀ label v, known label = some v → more label = some v

namespace Inquiry

variable {α β : Type}

/-- One inquiry after the other. -/
def bind : Inquiry α → (α → Inquiry β) → Inquiry β
  | answer a, f => f a
  | ask label next, f => ask label fun v => (next v).bind f

instance : Monad Inquiry where
  pure := answer
  bind := bind

theorem ask_bind (label : String) (next : Scalar → Inquiry α) (f : α → Inquiry β) :
    ask label next >>= f = ask label fun v => next v >>= f := rfl

instance : LawfulMonad Inquiry := LawfulMonad.mk' Inquiry
  (fun x => by
    induction x with
    | answer a => rfl
    | ask label next ih => exact congrArg (ask label) (funext ih))
  (fun _ _ => rfl)
  (fun x f g => by
    induction x with
    | answer a => rfl
    | ask label next ih => exact congrArg (ask label) (funext ih))

/-- The question for one cell. -/
def cell (label : String) : ExceptT Fault Inquiry Value :=
  ExceptT.mk (ask label fun v => answer (.ok (.scalar v)))

/-- An inquiry with a reader to answer it. -/
def runIn {m : Type → Type} [Monad m] (read : String → ExceptT Fault m Scalar) :
    Inquiry (Except Fault α) → ExceptT Fault m α
  | answer r => pureResult r
  | ask label next => do runIn read (next (← read label))

/-! ### Answers from what is known -/

/-- The answer; none if a cell is asked for that is not known. -/
def resolve (known : Knowledge) : Inquiry α → Option α
  | answer a => some a
  | ask label next => (known label).bind fun v => (next v).resolve known

/-- The cells asked for in order, the first unknown one the last. -/
def asked (known : Knowledge) : Inquiry α → List String
  | answer _ => []
  | ask label next => label :: (known label).elim [] fun v => (next v).asked known

/-- Whatever the values are, only cells with the property are asked for. -/
def AsksOnly (p : String → Prop) : Inquiry α → Prop
  | answer _ => True
  | ask label next => p label ∧ ∀ v, (next v).AsksOnly p

theorem resolve_bind (known : Knowledge) (x : Inquiry α) (f : α → Inquiry β) :
    (x >>= f).resolve known = (x.resolve known).bind fun a => (f a).resolve known := by
  induction x with
  | answer a => rfl
  | ask label next ih =>
    rw [ask_bind]
    simp only [resolve]
    cases known label with
    | none => rfl
    | some v => exact ih v

theorem asked_bind (known : Knowledge) (x : Inquiry α) (f : α → Inquiry β) :
    (x >>= f).asked known =
      x.asked known ++ (x.resolve known).elim [] fun a => (f a).asked known := by
  induction x with
  | answer a => rfl
  | ask label next ih =>
    rw [ask_bind]
    simp only [asked, resolve]
    cases known label with
    | none => rfl
    | some v => exact congrArg (label :: ·) (ih v)

theorem AsksOnly.bind {p : String → Prop} {x : Inquiry α} {f : α → Inquiry β}
    (hx : x.AsksOnly p) (hf : ∀ a, (f a).AsksOnly p) : (x >>= f).AsksOnly p := by
  induction x with
  | answer a => exact hf a
  | ask label next ih => exact ⟨hx.1, fun v => ih v (hx.2 v)⟩

theorem AsksOnly.mono {p p' : String → Prop} (hp : ∀ l, p l → p' l) {x : Inquiry α}
    (hx : x.AsksOnly p) : x.AsksOnly p' := by
  induction x with
  | answer a => trivial
  | ask label next ih => exact ⟨hp label hx.1, fun v => ih v (hx.2 v)⟩

theorem AsksOnly.of_mem_asked {p : String → Prop} {known : Knowledge} {x : Inquiry α}
    (hx : x.AsksOnly p) {label : String} (h : label ∈ x.asked known) : p label := by
  induction x with
  | answer a => simp [asked] at h
  | ask l next ih =>
    rcases List.mem_cons.mp h with rfl | h
    · exact hx.1
    · cases hk : known l with
      | none => simp [hk] at h
      | some v => rw [hk] at h; exact ih v (hx.2 v) h

/-! ### More knowledge -/

theorem resolve_mono {known more : Knowledge} (hle : known.Extends more) {x : Inquiry α} {a : α}
    (h : x.resolve known = some a) : x.resolve more = some a := by
  induction x with
  | answer b => exact h
  | ask label next ih =>
    obtain ⟨v, hv, h⟩ := Option.bind_eq_some_iff.mp h
    simp only [resolve, hle label v hv, Option.bind_some]
    exact ih v h

/-- What has been answered asks for nothing more. -/
theorem asked_of_resolve {known more : Knowledge} (hle : known.Extends more) {x : Inquiry α}
    {a : α} (h : x.resolve known = some a) : x.asked more = x.asked known := by
  induction x with
  | answer b => rfl
  | ask label next ih =>
    obtain ⟨v, hv, h⟩ := Option.bind_eq_some_iff.mp h
    simp only [asked, hv, hle label v hv, Option.elim_some, ih v h]

theorem known_of_mem_asked {known : Knowledge} {x : Inquiry α} {a : α}
    (h : x.resolve known = some a) {label : String} (hl : label ∈ x.asked known) :
    ∃ v, known label = some v := by
  induction x with
  | answer b => simp [asked] at hl
  | ask l next ih =>
    obtain ⟨v, hv, h⟩ := Option.bind_eq_some_iff.mp h
    rcases List.mem_cons.mp hl with rfl | hl
    · exact ⟨v, hv⟩
    · rw [hv] at hl; exact ih v h hl

end Inquiry

/-! ### What computations hand on -/

section

variable {m n : Type → Type} [Monad m] [Monad n]

/-- **A relation that computations hand on**, in one monad or in two: results are in it, and two steps
are if the first ones are, and the second ones on every value. -/
structure Transfer (rel : ∀ {α : Type}, ExceptT Fault m α → ExceptT Fault n α → Prop) : Prop where
  result : ∀ {α : Type} (r : Except Fault α), rel (pureResult r) (pureResult r)
  bind : ∀ {α β : Type} {x : ExceptT Fault m α} {y : ExceptT Fault n α}
    {f : α → ExceptT Fault m β} {g : α → ExceptT Fault n β},
    rel x y → (∀ a, rel (f a) (g a)) → rel (x >>= f) (y >>= g)

namespace Transfer

variable {rel : ∀ {α : Type}, ExceptT Fault m α → ExceptT Fault n α → Prop} (h : Transfer @rel)
  {f : String → ExceptT Fault m Value} {g : String → ExceptT Fault n Value}

include h

theorem pure {α : Type} (a : α) : rel (pure a : ExceptT Fault m α) (pure a) :=
  h.result (.ok a)

theorem mapM [LawfulMonad m] [LawfulMonad n] {α β : Type} {f : α → ExceptT Fault m β}
    {g : α → ExceptT Fault n β} (hf : ∀ a, rel (f a) (g a)) (l : List α) :
    rel (l.mapM f) (l.mapM g) := by
  induction l with
  | nil => exact h.pure []
  | cons a l ih =>
    rw [List.mapM_cons, List.mapM_cons]
    exact h.bind (hf a) fun b => h.bind ih fun bs => h.pure (b :: bs)

theorem readRange [LawfulMonad m] [LawfulMonad n] (hread : ∀ l, rel (f l) (g l))
    (start stop : String) : rel (Expr.readRange f start stop) (Expr.readRange g start stop) :=
  h.bind (h.result _) fun labels => h.bind (h.mapM hread labels) fun _ =>
    h.bind (h.result _) fun _ => h.pure _

omit h

mutual

/-- **Evaluations are in the relation** if readings of cells are. -/
theorem evaluate [LawfulMonad m] [LawfulMonad n] (h : Transfer @rel)
    (hread : ∀ l, rel (f l) (g l)) :
    ∀ e : Expr, rel (e.evaluate f) (e.evaluate g)
  | .literal v => h.pure v
  | .cell label => hread label
  | .range start stop => h.readRange hread start stop
  | .neg e => by
    rw [Expr.evaluate, Expr.evaluate]
    exact h.bind (h.evaluate hread e) fun _ => h.bind (h.result _) fun _ => h.pure _
  | .binary op l r | .unsupported _ l r => by
    rw [Expr.evaluate, Expr.evaluate]
    exact h.bind (h.evaluate hread l) fun _ => h.bind (h.result _) fun _ =>
      h.bind (h.evaluate hread r) fun _ => h.bind (h.result _) fun _ => h.result _
  | .call name args => by
    rw [Expr.evaluate, Expr.evaluate]
    split
    · exact h.evaluateConditional hread args
    · exact h.bind (h.evaluateList hread args) fun _ => h.result _
  | .foreign _ => h.result _

theorem evaluateList [LawfulMonad m] [LawfulMonad n] (h : Transfer @rel)
    (hread : ∀ l, rel (f l) (g l)) :
    ∀ es : List Expr, rel (Expr.evaluateList f es) (Expr.evaluateList g es)
  | [] => h.pure []
  | e :: rest => by
    rw [Expr.evaluateList, Expr.evaluateList]
    exact h.bind (h.evaluate hread e) fun _ => h.bind (h.evaluateList hread rest) fun _ => h.pure _

theorem evaluateConditional [LawfulMonad m] [LawfulMonad n] (h : Transfer @rel)
    (hread : ∀ l, rel (f l) (g l)) : ∀ es : List Expr,
      rel (Expr.evaluateConditional f es) (Expr.evaluateConditional g es)
  | [] => h.pure _
  | [condition] => by
    rw [Expr.evaluateConditional, Expr.evaluateConditional]
    exact h.bind (h.evaluate hread condition) fun _ => h.pure _
  | [condition, yes] => by
    rw [Expr.evaluateConditional, Expr.evaluateConditional]
    refine h.bind (h.evaluate hread condition) fun _ => ?_
    split
    · exact h.evaluate hread yes
    · exact h.pure _
  | condition :: yes :: no :: _ => by
    rw [Expr.evaluateConditional, Expr.evaluateConditional]
    refine h.bind (h.evaluate hread condition) fun _ => ?_
    split
    · exact h.evaluate hread yes
    · exact h.evaluate hread no

end

end Transfer

end

/-! ### Evaluation as an inquiry -/

namespace Expr

variable {n : Type → Type} [Monad n]

theorem pureResult_ok_bind [LawfulMonad n] {α β : Type} (a : α) (f : α → ExceptT Fault n β) :
    (pureResult (.ok a) : ExceptT Fault n α) >>= f = f a :=
  pure_bind a f

theorem pureResult_error_bind [LawfulMonad n] {α β : Type} (e : Fault)
    (f : α → ExceptT Fault n β) :
    (pureResult (.error e) : ExceptT Fault n α) >>= f = pureResult (.error e) :=
  ExceptT.ext (by rw [ExceptT.run_bind]; simp [pureResult])

/-- A tree as an inquiry for the cells that it reads. -/
def inquiry (e : Expr) : Inquiry (Except Fault Value) :=
  (e.evaluate Inquiry.cell).run

theorem runIn_run_bind [LawfulMonad n] (read : String → ExceptT Fault n Scalar) {α β : Type}
    (x : ExceptT Fault Inquiry α) (f : α → ExceptT Fault Inquiry β) :
    (x >>= f).run.runIn read = x.run.runIn read >>= fun a => (f a).run.runIn read := by
  rw [ExceptT.run_bind]
  generalize x.run = y
  induction y with
  | answer r =>
    cases r with
    | ok a => exact (pureResult_ok_bind a fun a => (f a).run.runIn read).symm
    | error e => exact (pureResult_error_bind e fun a => (f a).run.runIn read).symm
  | ask label next ih =>
    rw [Inquiry.ask_bind]
    simp only [Inquiry.runIn, bind_assoc, ih]

theorem transfer_runIn [LawfulMonad n] (read : String → ExceptT Fault n Scalar) :
    Transfer fun {α} (x : ExceptT Fault Inquiry α) y => x.run.runIn read = y where
  result _ := rfl
  bind := by
    rintro α β x _ f g rfl hf
    rw [runIn_run_bind]
    exact congrArg _ (funext hf)

/-- **The run of a tree's inquiry is its evaluation.** -/
theorem evaluate_eq_runIn [LawfulMonad n] (read : String → ExceptT Fault n Scalar) (e : Expr) :
    (e.evaluate fun l => do return .scalar (← read l)) = e.inquiry.runIn read := by
  have hcell (l : String) :
      (Inquiry.cell l).run.runIn read = do return .scalar (← read l) := rfl
  exact ((transfer_runIn read).evaluate hcell e).symm

/-- A table as a reader that is stopped by the cells it lacks. -/
def tableReader (known : Knowledge) (label : String) : ExceptT Fault Option Value :=
  ExceptT.mk ((known label).map fun v => .ok (.scalar v))

theorem transfer_resolve (known : Knowledge) :
    Transfer fun {α} (x : ExceptT Fault Inquiry α) (y : ExceptT Fault Option α) =>
      x.run.resolve known = y.run where
  result _ := rfl
  bind := by
    intro α β x y f g hx hf
    rw [ExceptT.run_bind, Inquiry.resolve_bind, ExceptT.run_bind, hx]
    rcases y.run with _ | r
    · rfl
    · cases r with
      | ok a => exact hf a
      | error e => rfl

/-- **Evaluation by a table is the inquiry's answer from it.** -/
theorem evaluate_tableReader (known : Knowledge) (e : Expr) :
    (e.evaluate (tableReader known)).run = e.inquiry.resolve known := by
  refine ((transfer_resolve known).evaluate (fun label => ?_) e).symm
  cases hl : known label <;> simp [tableReader, Inquiry.cell, Inquiry.resolve, hl]

end Expr

end Spreadsheet
