import Spreadsheet.Proofs.Session.NotedRuns

/-! # Noting changes nothing

A session that notes what it runs finds and records what any other session does, if its bounds are
those that sessions have (`erases_readNoted`). So what it does on any sheet, and the cells it notes,
are what a session does and the cells whose formulas it runs (`read_performs`). -/

namespace Spreadsheet.Session

/-- What a computation comes to without the cells noted. -/
def unnoted {α : Type} (z : (α × List String) × State) : α × State :=
  (z.1.1, z.2)

/-- But for what it notes, the first computation is the second. -/
def Silences {α : Type} (x : Noting α) (y : StateM State α) : Prop :=
  ∀ before s, unnoted (StateT.run (StateT.run x before) s) = StateT.run y s

/-- So it is for computations that may end with a fault. -/
def Erases {α : Type} (x : NotedRun α) (y : Run α) : Prop :=
  Silences x.run y.run

section Silences

variable {α β : Type} {x : Noting α} {y : StateM State α}

theorem silences_pure (a : α) : Silences (pure a) (pure a) := fun _ _ => rfl

theorem silences_modify (g : State → State) : Silences (modifyThe State g) (modify g) :=
  fun _ _ => rfl

theorem silences_modifyGet (g : State → α × State) :
    Silences (modifyGetThe State g) (modifyGet g) := fun _ _ => rfl

theorem Silences.bind {f : α → Noting β} {g : α → StateM State β} (hx : Silences x y)
    (hf : ∀ a, Silences (f a) (g a)) : Silences (x >>= f) (y >>= g) := by
  intro before s
  rw [StateT.run_bind, StateT.run_bind, StateT.run_bind, ← hx before s]
  exact hf _ _ _

/-- To note something first makes no difference. -/
theorem Silences.note (g : List String → List String) (hx : Silences x y) :
    Silences (do modify g; x) y :=
  fun before s => hx (g before) s

end Silences

section Erases

variable {α β : Type} {x : NotedRun α} {y : Run α}

theorem Erases.gives {s t : State} {r : Except Fault α} {ran : List String} (h : Erases x y)
    (hx : Notes x s r ran t) : Gives y s r t :=
  (h [] s).symm.trans (congrArg unnoted (hx []))

theorem erases_result (r : Except Fault α) :
    Erases (pureResult r : NotedRun α) (pureResult r : Run α) :=
  silences_pure r

theorem erases_pure (a : α) : Erases (pure a : NotedRun α) (pure a : Run α) :=
  erases_result (.ok a)

theorem erases_get : Erases (getThe State : NotedRun State) (get : Run State) := fun _ _ => rfl

theorem erases_modify (g : State → State) :
    Erases (modifyThe State g : NotedRun Unit) (modify g : Run Unit) := fun _ _ => rfl

theorem Erases.bind {f : α → NotedRun β} {g : α → Run β} (hx : Erases x y)
    (hf : ∀ a, Erases (f a) (g a)) : Erases (x >>= f) (y >>= g) := by
  unfold Erases
  rw [ExceptT.run_bind, ExceptT.run_bind]
  refine Silences.bind hx fun r => ?_
  cases r with
  | error f => exact silences_pure (Except.error f)
  | ok a => exact hf a

theorem transfer_erases : Transfer @Erases where
  result := erases_result
  bind := Erases.bind

theorem Silences.lift {x : Noting α} {y : StateM State α} (h : Silences x y) :
    Erases (liftM x : NotedRun α) (liftM y : Run α) := by
  show Silences (ExceptT.run (ExceptT.lift x)) (ExceptT.run (ExceptT.lift y))
  rw [ExceptT.run_lift, ExceptT.run_lift, map_eq_pure_bind, map_eq_pure_bind]
  exact h.bind fun a => silences_pure (Except.ok a)

end Erases

/-! ### Reading a cell -/

section

variable {noted : String → NotedRun Scalar} {read : String → Run Scalar}

theorem silences_evaluateNoted (hread : ∀ l, Erases (noted l) (read l)) (key formula : String) :
    Silences (evaluateNoted noted key formula) (evaluateCell read key formula) := by
  refine Silences.note _ (Silences.bind ?_ fun r => silences_modifyGet _)
  exact transfer_formulaValue transfer_erases hread formula

end

section

variable (src : Source)

theorem erases_walk {evaluateNoted : String → String → Noting Scalar}
    {evaluate : String → String → StateM State Scalar}
    (heval : ∀ key formula, Silences (evaluateNoted key formula) (evaluate key formula)) :
    ∀ (steps : Nat) (stack : List Frame),
      Erases (walk src evaluateNoted steps stack) (walk src evaluate steps stack)
  | 0, [] | _ + 1, [] => erases_pure ()
  | 0, _ :: _ => erases_result (.error .nestedTooDeep)
  | steps + 1, frame :: below => by
    unfold walk
    refine erases_get.bind fun s => ?_
    cases frame.pending.dropWhile (isSettled src s) with
    | nil =>
      dsimp only
      split_ifs
      · exact erases_pure ()
      · refine (heval _ _).lift.bind fun _ => (erases_modify _).bind fun _ => ?_
        exact erases_walk heval steps below
    | cons label pending =>
      refine (erases_modify _).bind fun _ => ?_
      dsimp only
      cases dependencies (formulaAt src label) with
      | ok labels => exact erases_walk heval steps _
      | error f => exact (erases_modify _).bind fun _ => erases_result (.error f)

theorem erases_look {noted : String → String → NotedRun Scalar}
    {compute : String → String → Run Scalar}
    (h : ∀ key formula, Erases (noted key formula) (compute key formula)) (label : String) :
    Erases (look src noted label) (look src compute label) := by
  unfold look
  refine erases_get.bind fun s => ?_
  cases s.memo[Label.normalize label]? with
  | some v => exact erases_pure v
  | none =>
    dsimp only
    split_ifs
    · exact (erases_modify _).bind fun _ => erases_pure _
    · exact h _ _
    · exact (erases_modify _).bind fun _ => erases_pure _

theorem erases_startNoted : ∀ (depth : Nat) (key formula : String),
    Erases (startNoted src (walkBound src) depth key formula)
      (start src depth key formula)
  | 0, _, _ => erases_result (.error .nestedTooDeep)
  | depth + 1, key, formula => by
    have heval := silences_evaluateNoted (erases_look src (erases_startNoted depth))
    have hcomputed := Erases.bind
      ((erases_result (dependencies formula)).bind fun labels =>
        erases_walk src heval (walkBound src) [⟨key, labels⟩])
      fun _ => (heval key formula).lift
    exact (silences_modify _).bind fun _ => Silences.bind hcomputed fun r =>
      (silences_modify _).bind fun _ => silences_pure r

/-- **Noting changes nothing**: within the bounds of sessions, cells are read as by any other. -/
theorem erases_readNoted (label : String) :
    Erases (readNoted src (walkBound src) src.formulas.length label) (read src label) :=
  erases_look src (erases_startNoted src src.formulas.length) label

end

/-- **What reading a cell does on any sheet** is in the relation. -/
theorem read_performs {src : Source} (hlisted : ∀ l, src.HasFormula l → l ∈ src.formulas)
    (label : String) (s : State) : ∃ r ran t, Gives (read src label) s r t ∧
      Performs src (.read (Label.normalize label) r) s ran t := by
  obtain ⟨r, ran, t, hr, ht⟩ := readNoted_performs hlisted le_rfl le_rfl label s
  exact ⟨r, ran, t, (erases_readNoted src label).gives hr, ht⟩

end Spreadsheet.Session
