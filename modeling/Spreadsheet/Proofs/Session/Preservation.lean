import Spreadsheet.Proofs.Session.Requests

/-! # What computations in a session keep

A property of states that reading a cell keeps is kept by formulas and by requests, whatever they
come to (`preserves_formulaValue`, `preserves_performBy`): they do no more than to read cells. So it
holds in every state that a session comes to (`after_preserves`). -/

namespace Spreadsheet.Session

variable {γ : Type} {p : State γ → Prop}

/-- Whatever the computation comes to, it keeps the property. -/
def Preserves (p : State γ → Prop) {α : Type} (x : RunOver γ α) : Prop :=
  ∀ s, p s → p (StateT.run x.run s).2

section Preserves

variable {α β : Type} {x : RunOver γ α}

theorem preserves_result (r : Except Fault α) : Preserves p (pureResult r : RunOver γ α) :=
  fun _ hs => hs

theorem preserves_pure (a : α) : Preserves p (pure a : RunOver γ α) :=
  preserves_result (.ok a)

/-- What a computation does that first looks at the state. -/
theorem preserves_get_bind {f : State γ → RunOver γ α}
    (hf : ∀ s, p s → p (StateT.run (f s).run s).2) : Preserves p (get >>= f) :=
  hf

theorem preserves_get : Preserves p (get : RunOver γ (State γ)) := fun _ hs => hs

theorem Preserves.bind {f : α → RunOver γ β} (hx : Preserves p x) (hf : ∀ a, Preserves p (f a)) :
    Preserves p (x >>= f) := by
  intro s hs
  have ht := hx s hs
  obtain ⟨⟨r, t⟩, h⟩ : ∃ z, StateT.run x.run s = z := ⟨_, rfl⟩
  rw [h] at ht
  cases r with
  | error e =>
    have hgives : Gives (x >>= f) s (.error e) t := Gives.bind_error h
    rw [hgives]
    exact ht
  | ok a =>
    have hgives : Gives (x >>= f) s _ _ := Gives.bind h rfl
    rw [hgives]
    exact hf a t ht

/-- What a computation does that first changes the state. -/
theorem preserves_modify_bind {g : State γ → State γ} {f : Unit → RunOver γ α} {s : State γ}
    (hf : p (StateT.run (f ()).run (g s)).2) :
    p (StateT.run ((modify g : RunOver γ Unit) >>= f).run s).2 :=
  hf

/-- What a computation does that starts with one that cannot fail. -/
theorem preserves_lift_bind {β : Type} {y : StateM (State γ) α} {f : α → RunOver γ β} {s : State γ}
    (hy : p (StateT.run y s).2) (hf : ∀ a, Preserves p (f a)) :
    p (StateT.run ((liftM y : RunOver γ α) >>= f).run s).2 :=
  hf _ _ hy

theorem transfer_preserves (p : State γ → Prop) :
    Transfer fun {α} (x _ : RunOver γ α) => Preserves p x where
  result := preserves_result
  bind := Preserves.bind

end Preserves

/-! ### Formulas and requests -/

variable [Content γ] {read : String → RunOver γ γ} {src : Source γ}

/-- **A formula keeps what reading a cell keeps.** -/
theorem preserves_formulaValue (hread : ∀ l, Preserves p (read l)) (formula : String) :
    Preserves p (formulaValue read formula) :=
  transfer_formulaValue (g := read) (transfer_preserves p) hread formula

/-- **A request keeps what reading a cell keeps.** -/
theorem preserves_performBy (hread : ∀ l, Preserves p (read l)) (rows cols : Nat)
    (request : Request) : Preserves p (request.performBy src rows cols read) :=
  transfer_performBy (g := read) (transfer_preserves p) preserves_get hread rows cols request

/-- **So does a session**, from its start on. -/
theorem after_preserves (hread : ∀ l, Preserves p (Session.read src l)) (hempty : p {})
    (rows cols : Nat) (requests : List Request) : p (afterOver src rows cols requests) := by
  unfold afterOver
  generalize ({} : State γ) = s at hempty ⊢
  induction requests generalizing s with
  | nil => exact hempty
  | cons request requests ih =>
    exact ih _ (preserves_performBy hread rows cols request s hempty)

end Spreadsheet.Session
