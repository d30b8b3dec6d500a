import Spreadsheet.Session.Recursive
import Spreadsheet.Proofs.Formula.Inquiry
import Mathlib.Data.List.Count

/-! # What a session does

Reading a cell as a relation between states, without stacks and bounds: before the formula of a
cell runs, the cells that it reads ahead are computed in order; then it runs as an inquiry, and its
answer is settled (`Does`). A session that reads nothing ahead is the plain recursive walk.

* `fresh`: how many formulas have not been started; each nested computation lowers it.
* `Unwinds`: what a walk does from a stack on, from its innermost cell outwards.
* `read_does`, `readNested_does`: reading a cell succeeds, and what it does is in the relation. -/

namespace Spreadsheet

/-- The text of a formula as an inquiry for its value. -/
def Formula.inquiry (formula : String) : Inquiry (Except Fault Value) :=
  match ofText formula with
  | .ok tree => tree.inquiry
  | .error f => .answer (.error f)

/-- The formula of a cell as an inquiry for what the cell takes from its value. -/
def Source.inquiry (src : Source) (label : String) : Inquiry (Except Fault Scalar) :=
  Session.cellResult (Session.formulaAt src label) <$>
    Formula.inquiry (Session.formulaAt src label)

/-- The cells that are read before the formula of a cell runs. -/
def Source.ahead (src : Source) (label : String) : List String :=
  match Session.dependencies (Session.formulaAt src label) with
  | .ok labels => labels
  | .error _ => []

/-- The formula cells are listed, they ask for cells by the labels under which these are kept, and
what they read ahead can be told. -/
structure Source.Regular (src : Source) : Prop where
  listed : ∀ l, src.HasFormula l → l ∈ src.formulas
  normal : ∀ l, src.HasFormula l → (src.inquiry l).AsksOnly fun m => Label.normalize m = m
  dependencies : ∀ l, src.HasFormula l →
    Session.dependencies (Session.formulaAt src l) = .ok (src.ahead l)

namespace Session

section Gives

variable {γ α β : Type} {x : RunOver γ α} {f : α → RunOver γ β} {s t u : State γ}

/-- The computation, started in `s`, comes to `r` and leaves `t`. -/
def Gives (x : RunOver γ α) (s : State γ) (r : Except Fault α) (t : State γ) : Prop :=
  StateT.run x.run s = (r, t)

theorem gives_result (r : Except Fault α) (s : State γ) : Gives (pureResult r) s r s := rfl

theorem gives_pure (a : α) (s : State γ) : Gives (pure a) s (.ok a) s := rfl

theorem Gives.bind {a : α} {r : Except Fault β} (hx : Gives x s (.ok a) t)
    (hf : Gives (f a) t r u) : Gives (x >>= f) s r u := by
  unfold Gives at hx hf ⊢
  rw [ExceptT.run_bind, StateT.run_bind, hx]
  exact hf

theorem Gives.bind_error {e : Fault} (hx : Gives x s (.error e) t) :
    Gives (x >>= f) s (.error e) t := by
  unfold Gives at hx ⊢
  rw [ExceptT.run_bind, StateT.run_bind, hx]
  rfl

theorem gives_lift {y : StateM (State γ) α} {a : α} (h : StateT.run y s = (a, t)) :
    Gives (liftM y : RunOver γ α) s (.ok a) t := by
  unfold Gives
  show StateT.run (ExceptT.run (ExceptT.lift y)) s = _
  rw [ExceptT.run_lift, StateT.run_map, h]
  rfl

theorem gives_modify (g : State γ → State γ) (s : State γ) :
    Gives (modify g) s (.ok ()) (g s) := rfl

theorem gives_get (s : State γ) : Gives get s (.ok s) s := rfl

end Gives

/-! ### Marks and memory -/

section

variable {γ : Type}

@[simp] theorem memo_mark (key : String) (s : State γ) : (s.mark key).memo = s.memo := rfl

@[simp] theorem errors_mark (key : String) (s : State γ) : (s.mark key).errors = s.errors := rfl

@[simp] theorem running_mark (key : String) (s : State γ) :
    (s.mark key).running = key :: s.running := rfl

@[simp] theorem memo_unmark (key : String) (s : State γ) : (s.unmark key).memo = s.memo := rfl

@[simp] theorem errors_unmark (key : String) (s : State γ) :
    (s.unmark key).errors = s.errors := rfl

theorem running_unmark {key : String} {s : State γ} {below : List String}
    (hs : s.running = key :: below) (hkey : key ∉ below) : (s.unmark key).running = below := by
  have : below.filter (· != key) = below :=
    List.filter_eq_self.mpr fun l hl => bne_iff_ne.mpr fun h => hkey (h ▸ hl)
  simp [State.unmark, hs, this]

theorem mem_of_memo {s : State γ} {l : String} {v : γ} (h : s.memo[l]? = some v) :
    l ∈ s.memo := by
  simp [Std.HashMap.mem_iff_isSome_getElem?, h]

theorem exists_of_mem_memo {s : State γ} {l : String} (h : l ∈ s.memo) :
    ∃ v : γ, s.memo[l]? = some v :=
  Option.isSome_iff_exists.mp (Std.HashMap.mem_iff_isSome_getElem?.mp h)

theorem memo_none_iff {s : State γ} {l : String} : s.memo[l]? = none ↔ l ∉ s.memo := by
  rw [Std.HashMap.mem_iff_isSome_getElem?, Option.not_isSome_iff_eq_none]

variable [Content γ] {src : Source γ}

theorem isSettled_iff {s : State γ} {label : String} : isSettled src s label = true ↔
    ¬ src.HasFormula label ∨ label ∈ s.memo ∨ label ∈ s.running := by
  simp only [isSettled, Source.HasFormula, Bool.or_eq_true, Bool.not_eq_true',
    Bool.not_eq_true, Std.HashMap.contains_iff_mem, List.contains_iff_mem, or_assoc]

theorem isSettled_eq_false_iff {s : State γ} {label : String} : isSettled src s label = false ↔
    src.HasFormula label ∧ label ∉ s.memo ∧ label ∉ s.running := by
  rw [← Bool.not_eq_true, isSettled_iff, not_or, not_or, not_not]

@[simp] theorem running_settle (key : String) (r : Except Fault γ) (s : State γ) :
    (settle key r s).2.running = s.running := by
  cases r <;> rfl

theorem memo_settle (key : String) (r : Except Fault γ) (s : State γ) :
    (settle key r s).2.memo = s.memo.insert key (settle key r s).1 := by
  cases r <;> rfl

theorem memo_settle_self (key : String) (r : Except Fault γ) (s : State γ) :
    (settle key r s).2.memo[key]? = some (settle key r s).1 := by
  rw [memo_settle, Std.HashMap.getElem?_insert_self]

theorem not_settled_of_dropWhile {s : State γ} {key : String} {pending : List String} :
    ∀ {labels : List String}, labels.dropWhile (isSettled src s) = key :: pending →
      isSettled src s key = false
  | l :: labels, h => by
    by_cases hl : isSettled src s l = true
    · rw [List.dropWhile_cons_of_pos hl] at h
      exact not_settled_of_dropWhile h
    · rw [List.dropWhile_cons_of_neg hl] at h
      obtain rfl : l = key := (List.cons.inj h).1
      exact Bool.eq_false_iff.mpr hl

variable (src) in
theorem look_cases (s : State γ) (key : String) : (∃ v, s.memo[key]? = some v) ∨
    s.memo[key]? = none ∧ key ∈ s.running ∨
    s.memo[key]? = none ∧ key ∉ s.running ∧ ¬ src.HasFormula key ∨
    isSettled src s key = false := by
  cases hm : s.memo[key]? with
  | some v => exact Or.inl ⟨v, rfl⟩
  | none =>
    rw [isSettled_eq_false_iff, ← memo_none_iff]
    by_cases hr : key ∈ s.running <;> by_cases hf : src.HasFormula key <;> simp [hr, hf, hm]

end

/-! ### Looking at a cell -/

section

variable {γ : Type} [Content γ] {src : Source γ} {compute : String → String → RunOver γ γ}
  {label : String} {s t : State γ}

theorem gives_look_remembered {v : γ} (hv : s.memo[Label.normalize label]? = some v) :
    Gives (look src compute label) s (.ok v) s := by
  unfold look
  refine (gives_get s).bind ?_
  simp only [hv]
  exact gives_pure v s

theorem gives_look_closed (hm : s.memo[Label.normalize label]? = none)
    (hr : Label.normalize label ∈ s.running) :
    Gives (look src compute label) s (.ok Content.zero) (s.fail (Label.normalize label) .cycle) := by
  unfold look
  refine (gives_get s).bind ?_
  simp only [hm, List.contains_iff_mem, hr, if_true]
  exact (gives_modify _ _).bind (gives_pure _ _)

theorem gives_look_literal (hm : s.memo[Label.normalize label]? = none)
    (hr : Label.normalize label ∉ s.running) (hf : ¬ src.HasFormula (Label.normalize label)) :
    Gives (look src compute label) s (.ok (src.literal (Label.normalize label)))
      (s.remember (Label.normalize label) (src.literal (Label.normalize label))) := by
  unfold look
  refine (gives_get s).bind ?_
  simp only [hm, List.contains_iff_mem, hr, if_false]
  rw [if_neg (show ¬ Content.isFormula (src.cell (Label.normalize label)) = true from hf)]
  exact (gives_modify _ _).bind (gives_pure _ _)

/-- A formula that is not settled is computed. -/
theorem gives_look_compute {r : Except Fault γ}
    (hkey : isSettled src s (Label.normalize label) = false)
    (h : Gives (compute (Label.normalize label) (formulaAt src (Label.normalize label))) s r t) :
    Gives (look src compute label) s r t := by
  obtain ⟨hf, hm, hr⟩ := isSettled_eq_false_iff.mp hkey
  unfold look
  refine (gives_get s).bind ?_
  simp only [memo_none_iff.mpr hm, List.contains_iff_mem, hr, if_false]
  rw [if_pos (show Content.isFormula (src.cell (Label.normalize label)) = true from hf)]
  exact h

end

/-! ### The relation -/

/-- What a session can be about: to compute the cells among `labels` that need it, to compute a
cell, to run an inquiry to its answer, and to read a cell and find a value. -/
inductive Task where
  | prefetch (labels : List String)
  | compute (key : String)
  | run (q : Inquiry (Except Fault Scalar)) (r : Except Fault Scalar)
  | read (key : String) (v : Scalar)

/-- **What a session does** that reads the cells `ahead key` before the formula at `key` runs. -/
inductive Does (src : Source) (ahead : String → List String) : Task → State → State → Prop
  | nothing {s} : Does src ahead (.prefetch []) s s
  | skip {l ls s t} (hl : isSettled src s l = true) (h : Does src ahead (.prefetch ls) s t) :
      Does src ahead (.prefetch (l :: ls)) s t
  | visit {l ls s t u} (hl : Does src ahead (.compute l) s t)
      (h : Does src ahead (.prefetch ls) t u) : Does src ahead (.prefetch (l :: ls)) s u
  | compute {key r s t u} (hkey : isSettled src s key = false)
      (ht : Does src ahead (.prefetch (ahead key)) (s.mark key) t)
      (hu : Does src ahead (.run (src.inquiry key) r) t u) :
      Does src ahead (.compute key) s ((settle key r u).2.unmark key)
  | answer {r s} : Does src ahead (.run (.answer r) r) s s
  | ask {l next v r s t u} (hl : Does src ahead (.read l v) s t)
      (h : Does src ahead (.run (next v) r) t u) : Does src ahead (.run (.ask l next) r) s u
  | remembered {key v s} (hv : s.memo[key]? = some v) : Does src ahead (.read key v) s s
  | closed {key s} (hm : s.memo[key]? = none) (hr : key ∈ s.running) :
      Does src ahead (.read key (.int 0)) s (s.fail key .cycle)
  | literal {key s} (hm : s.memo[key]? = none) (hr : key ∉ s.running)
      (hf : ¬ src.HasFormula key) :
      Does src ahead (.read key (src.literal key)) s (s.remember key (src.literal key))
  | start {key v s t} (h : Does src ahead (.compute key) s t) (hv : t.memo[key]? = some v) :
      Does src ahead (.read key v) s t

variable {src : Source} {ahead : String → List String}

/-! ### What only grows -/

/-- The marks are as before, and nothing is forgotten. -/
structure Grows (s t : State) : Prop where
  running : t.running = s.running
  memo : ∀ l, l ∈ s.memo → l ∈ t.memo

theorem Grows.refl (s : State) : Grows s s := ⟨rfl, fun _ h => h⟩

theorem Grows.trans {s t u : State} (h : Grows s t) (h' : Grows t u) : Grows s u :=
  ⟨h'.running.trans h.running, fun l hl => h'.memo l (h.memo l hl)⟩

/-- A cell that was marked, computed and settled leaves the marks as they were. -/
theorem Grows.unmark_settle {key : String} {r : Except Fault Scalar} {s u : State}
    (h : Grows (s.mark key) u) (hkey : key ∉ s.running) :
    Grows s ((settle key r u).2.unmark key) where
  running := running_unmark (by rw [running_settle, h.running, running_mark]) hkey
  memo l hl := by
    rw [memo_unmark, memo_settle]
    exact Std.HashMap.mem_insert.mpr (Or.inr (h.memo l hl))

theorem Does.grows {task : Task} {s t : State} (h : Does src ahead task s t) : Grows s t := by
  induction h with
  | nothing | answer | remembered | closed => exact ⟨rfl, fun _ h => h⟩
  | skip _ _ ih | start _ _ ih => exact ih
  | visit _ _ ih ih' | ask _ _ ih ih' => exact ih.trans ih'
  | compute hkey _ _ ih ih' =>
    exact (ih.trans ih').unmark_settle (isSettled_eq_false_iff.mp hkey).2.2
  | literal => exact ⟨rfl, fun _ h => Std.HashMap.mem_insert.mpr (Or.inr h)⟩

/-- What has been settled stays settled. -/
theorem Grows.isSettled {s t : State} (h : Grows s t) {l : String}
    (hl : isSettled src s l = true) : Session.isSettled src t l = true := by
  rw [isSettled_iff] at hl ⊢
  rw [h.running]
  exact hl.imp_right (Or.imp_left (h.memo l))

theorem isSettled_unmark_settle {key : String} {r : Except Fault Scalar} {s : State} {l : String}
    (hl : isSettled src s l = true) :
    isSettled src ((settle key r s).2.unmark key) l = true := by
  rw [isSettled_iff] at hl ⊢
  rw [memo_unmark, memo_settle, Std.HashMap.mem_insert, State.unmark, running_settle]
  rcases hl with h | h | h
  · exact Or.inl h
  · exact Or.inr (Or.inl (Or.inr h))
  · by_cases hkey : l = key
    · exact Or.inr (Or.inl (Or.inl (by simp [hkey])))
    · exact Or.inr (Or.inr (List.mem_filter.mpr ⟨h, bne_iff_ne.mpr hkey⟩))

theorem isSettled_mark {s : State} {key l : String} (hl : isSettled src s l = true) :
    isSettled src (s.mark key) l = true := by
  rw [isSettled_iff] at hl ⊢
  exact hl.imp_right (Or.imp_right (List.mem_cons_of_mem key))

variable (src) in
/-- How many formulas have been neither computed nor started. -/
def fresh (s : State) : Nat :=
  src.formulas.countP fun l => !isSettled src s l

theorem fresh_le_of_settled {s t : State}
    (h : ∀ l, isSettled src s l = true → isSettled src t l = true) :
    fresh src t ≤ fresh src s := by
  refine List.countP_mono_left fun l _ hl => ?_
  rw [Bool.not_eq_true'] at hl ⊢
  exact Bool.eq_false_iff.mpr fun hs => by simp [h l hs] at hl

theorem Grows.fresh_le {s t : State} (h : Grows s t) : fresh src t ≤ fresh src s :=
  fresh_le_of_settled fun _ => h.isSettled

theorem countP_lt_countP {α : Type} {p q : α → Bool} (hpq : ∀ a, p a = true → q a = true) {a : α}
    (hp : p a = false) (hq : q a = true) : ∀ {l : List α}, a ∈ l → l.countP p < l.countP q
  | b :: l, h => by
    rw [List.countP_cons, List.countP_cons]
    rcases List.mem_cons.mp h with rfl | h
    · have := List.countP_mono_left (l := l) fun b _ => hpq b
      simp only [hp, hq, if_true]
      simp; omega
    · have := countP_lt_countP hpq hp hq h
      by_cases hb : p b = true
      · simp only [hb, hpq b hb, if_true]; omega
      · simp only [hb]; simp; omega

/-- A cell that is marked is one formula less to start. -/
theorem fresh_mark_lt {s : State} {key : String} (hkey : isSettled src s key = false)
    (hmem : key ∈ src.formulas) : fresh src (s.mark key) < fresh src s := by
  refine countP_lt_countP (fun l hl => ?_) ?_ ?_ hmem
  · rw [Bool.not_eq_true'] at hl ⊢
    exact Bool.eq_false_iff.mpr fun hs => by simp [isSettled_mark hs] at hl
  · simp [isSettled_iff]
  · simp [hkey]

/-! ### Formulas -/

/-- **The values of a formula are in the relation** if readings of cells are. -/
theorem transfer_formulaValue {γ : Type} [Content γ] {m n : Type → Type} [Monad m] [Monad n]
    [LawfulMonad m] [LawfulMonad n]
    {rel : ∀ {α : Type}, ExceptT Fault m α → ExceptT Fault n α → Prop} (h : Transfer @rel)
    {f : String → ExceptT Fault m γ} {g : String → ExceptT Fault n γ}
    (hread : ∀ l, rel (f l) (g l)) (formula : String) :
    rel (formulaValue f formula) (formulaValue g formula) :=
  h.bind (h.result _) fun tree =>
    h.evaluate (fun l => h.bind (hread l) fun _ => h.pure _) tree

theorem formulaValue_eq_runIn {m : Type → Type} [Monad m] [LawfulMonad m]
    (read : String → ExceptT Fault m Scalar) (formula : String) :
    formulaValue read formula = (Formula.inquiry formula).runIn read := by
  unfold formulaValue Formula.inquiry
  cases Formula.ofText formula with
  | ok tree => exact (Expr.pureResult_ok_bind tree _).trans (tree.evaluate_eq_runIn read)
  | error f => exact Expr.pureResult_error_bind f _

variable (src ahead) in
/-- The reader reads as the relation says while at most `n` formulas are to be started. -/
def Serves (n : Nat) (read : String → Run Scalar) : Prop :=
  ∀ l s, fresh src s ≤ n → ∃ v t,
    Gives (read l) s (.ok v) t ∧ Does src ahead (.read (Label.normalize l) v) s t

theorem Serves.runIn {n : Nat} {read : String → Run Scalar} (hread : Serves src ahead n read)
    (g : Except Fault Value → Except Fault Scalar) (q : Inquiry (Except Fault Value))
    (hq : (g <$> q).AsksOnly fun m => Label.normalize m = m) {s : State}
    (hs : fresh src s ≤ n) :
    ∃ r t, Gives (q.runIn read) s r t ∧ Does src ahead (.run (g <$> q) (g r)) s t := by
  induction q generalizing s with
  | answer r => exact ⟨r, s, gives_result r s, .answer⟩
  | ask l next ih =>
    obtain ⟨v, t, hv, ht⟩ := hread l s hs
    rw [hq.1] at ht
    obtain ⟨r, u, hr, hu⟩ := ih v (hq.2 v) (Nat.le_trans ht.grows.fresh_le hs)
    exact ⟨r, u, hv.bind hr, .ask ht hu⟩

variable (src ahead) in
/-- The formula at a cell is run and settled as the relation says while at most `n` formulas are to
be started. -/
def Settles (n : Nat) (evaluate : String → String → StateM State Scalar) : Prop :=
  ∀ key s, src.HasFormula key → fresh src s ≤ n → ∃ r u,
    StateT.run (evaluate key (formulaAt src key)) s = settle key r u ∧
      Does src ahead (.run (src.inquiry key) r) s u

theorem gives_settle {y : StateM State Scalar} {key : String} {r : Except Fault Scalar}
    {s u : State} (h : StateT.run y s = settle key r u) :
    Gives (liftM y : Run Scalar) s (.ok (settle key r u).1) (settle key r u).2 :=
  gives_lift h

theorem Serves.settles {n : Nat} {read : String → Run Scalar} (hread : Serves src ahead n read)
    (hsrc : src.Regular) : Settles src ahead n (evaluateCell read) := by
  intro key s hkey hs
  obtain ⟨r, u, hr, hu⟩ := hread.runIn (cellResult (formulaAt src key)) _ (hsrc.normal key hkey) hs
  refine ⟨_, u, ?_, hu⟩
  unfold evaluateCell
  rw [StateT.run_bind, formulaValue_eq_runIn, hr]
  rfl

/-! ### Walks -/

variable (src ahead) in
/-- What a walk does from a stack on: the innermost cell is computed as far as it still needs, then
the cells below it. -/
inductive Unwinds : List Frame → State → State → Prop
  | bottom {frame s t} (h : Does src ahead (.prefetch frame.pending) s t) :
      Unwinds [frame] s t
  | above {frame next below r s t u w} (ht : Does src ahead (.prefetch frame.pending) s t)
      (hu : Does src ahead (.run (src.inquiry frame.label) r) t u)
      (h : Unwinds (next :: below) ((settle frame.label r u).2.unmark frame.label) w) :
      Unwinds (frame :: next :: below) s w

theorem Does.skips {s t : State} : ∀ {labels : List String},
    Does src ahead (.prefetch (labels.dropWhile (isSettled src s))) s t →
      Does src ahead (.prefetch labels) s t
  | [], h => h
  | l :: labels, h => by
    by_cases hl : isSettled src s l = true
    · rw [List.dropWhile_cons_of_pos hl] at h
      exact .skip hl h.skips
    · rwa [List.dropWhile_cons_of_neg hl] at h

/-- A cell that is computed first belongs to what the innermost cell still needs. -/
theorem Unwinds.visit {label key : String} {pending labels : List String} {below : List Frame}
    {s t w : State} (ht : Does src ahead (.compute key) s t)
    (hs : labels.dropWhile (isSettled src s) = key :: pending)
    (h : Unwinds src ahead (⟨label, pending⟩ :: below) t w) :
    Unwinds src ahead (⟨label, labels⟩ :: below) s w := by
  have hskip {u} (h : Does src ahead (.prefetch pending) t u) :
      Does src ahead (.prefetch labels) s u := Does.skips (hs ▸ .visit ht h)
  cases h with
  | bottom h => exact .bottom (hskip h)
  | above ht hu h => exact .above (hskip ht) hu h

/-- **A walk comes to its end**, within twice as many steps as there are formulas to start. -/
theorem walk_unwinds (hsrc : src.Regular) {n : Nat}
    {evaluate : String → String → StateM State Scalar}
    (heval : Settles src src.ahead n evaluate) :
    ∀ (steps : Nat) (frame : Frame) (below : List Frame) (s : State),
      (∀ f ∈ frame :: below, src.HasFormula f.label) → fresh src s ≤ n →
      2 * fresh src s + (frame :: below).length ≤ steps → ∃ t,
        Gives (walk src evaluate steps (frame :: below)) s (.ok ()) t ∧
          Unwinds src src.ahead (frame :: below) s t
  | 0, _, _, _, _, _, h => by simp at h
  | steps + 1, frame, below, s, hf, hn, h => by
    rw [List.length_cons] at h
    unfold walk
    cases hd : frame.pending.dropWhile (isSettled src s) with
    | nil =>
      have hdone : Does src src.ahead (.prefetch frame.pending) s s :=
        Does.skips (hd ▸ .nothing)
      cases below with
      | nil => exact ⟨s, (gives_get s).bind (by rw [hd]; exact gives_pure () s), .bottom hdone⟩
      | cons next below =>
        obtain ⟨r, u, he, hu⟩ := heval frame.label s (hf frame (by simp)) hn
        have hle : fresh src ((settle frame.label r u).2.unmark frame.label) ≤ fresh src s :=
          Nat.le_trans (fresh_le_of_settled fun l => isSettled_unmark_settle) hu.grows.fresh_le
        obtain ⟨t, ht, hw⟩ := walk_unwinds hsrc heval steps next below
          ((settle frame.label r u).2.unmark frame.label) (fun f h => hf f (by simp [h]))
          (Nat.le_trans hle hn) (by rw [List.length_cons] at h ⊢; omega)
        refine ⟨t, (gives_get s).bind ?_, .above hdone hu hw⟩
        rw [hd]
        exact (gives_settle he).bind ((gives_modify _ _).bind ht)
    | cons key pending =>
      have hkey := not_settled_of_dropWhile hd
      have hform := (isSettled_eq_false_iff.mp hkey).1
      have hlt := fresh_mark_lt hkey (hsrc.listed key hform)
      obtain ⟨t, ht, hw⟩ := walk_unwinds hsrc heval steps ⟨key, src.ahead key⟩
        ({ frame with pending } :: below) (s.mark key)
        (by simpa [hform] using hf) (by omega) (by simp only [List.length_cons]; omega)
      refine ⟨t, (gives_get s).bind ?_, ?_⟩
      · rw [hd]
        refine (gives_modify _ _).bind ?_
        simpa only [hsrc.dependencies key hform] using ht
      · cases hw with
        | above ht hu hw => exact Unwinds.visit (.compute hkey ht hu) hd hw

/-! ### Reading a cell -/

/-- To start a formula is to compute its cell, the formulas that it starts being started alike. -/
theorem start_succ (src : Source) (n : Nat) : start src (n + 1) =
    compute src (walkBound src) (evaluateCell (look src (start src n))) := rfl

/-- The marks of a computation stand around it, whatever it comes to. -/
theorem gives_compute {evaluate : String → String → StateM State Scalar} {steps : Nat}
    {key formula : String} {r : Except Fault Scalar} {s t : State}
    (h : Gives (do
        prefetch src steps evaluate key formula
        evaluate key formula) (s.mark key) r t) :
    Gives (compute src steps evaluate key formula) s r (t.unmark key) := by
  unfold Gives at h ⊢
  unfold compute
  rw [ExceptT.run_mk, StateT.run_bind, StateT.run_modify]
  show StateT.run (ExceptT.run _ >>= _) (s.mark key) = _
  rw [StateT.run_bind, h]
  rfl

theorem start_gives (hsrc : src.Regular) {n : Nat} {key : String} {s : State}
    (hread : Serves src src.ahead n (look src (start src n)))
    (hkey : isSettled src s key = false) (hs : fresh src s ≤ n + 1) :
    ∃ v t, Gives (start src (n + 1) key (formulaAt src key)) s (.ok v) t ∧
      Does src src.ahead (.compute key) s t ∧ t.memo[key]? = some v := by
  have hform := (isSettled_eq_false_iff.mp hkey).1
  have hlt := fresh_mark_lt hkey (hsrc.listed key hform)
  have hle : fresh src s ≤ src.formulas.length := List.countP_le_length
  obtain ⟨t, ht, hw⟩ := walk_unwinds hsrc (hread.settles hsrc) (2 * src.formulas.length + 1)
    ⟨key, src.ahead key⟩ [] (s.mark key) (by simpa using hform) (by omega)
    (by simp only [List.length_cons, List.length_nil]; omega)
  cases hw with
  | bottom hp =>
    obtain ⟨r, u, he, hu⟩ := hread.settles hsrc key t hform
      (Nat.le_trans hp.grows.fresh_le (by omega))
    have hprefetch : Gives (prefetch src (walkBound src) (evaluateCell (look src (start src n)))
        key (formulaAt src key)) (s.mark key) (.ok ()) t := by
      unfold prefetch
      rw [hsrc.dependencies key hform, Expr.pureResult_ok_bind]
      exact ht
    refine ⟨(settle key r u).1, (settle key r u).2.unmark key, ?_, .compute hkey hp hu, ?_⟩
    · exact gives_compute (hprefetch.bind (gives_settle he))
    · rw [memo_unmark, memo_settle_self]

theorem look_serves {n : Nat} {compute : String → String → Run Scalar}
    (hstart : ∀ key s, isSettled src s key = false → fresh src s ≤ n → ∃ v t,
      Gives (compute key (formulaAt src key)) s (.ok v) t ∧
        Does src ahead (.compute key) s t ∧ t.memo[key]? = some v) :
    Serves src ahead n (look src compute) := by
  intro label s hs
  rcases look_cases src s (Label.normalize label) with
    ⟨v, hv⟩ | ⟨hm, hr⟩ | ⟨hm, hr, hf⟩ | hkey
  · exact ⟨v, s, gives_look_remembered hv, .remembered hv⟩
  · exact ⟨.int 0, _, gives_look_closed hm hr, .closed hm hr⟩
  · exact ⟨src.literal _, _, gives_look_literal hm hr hf, .literal hm hr hf⟩
  · obtain ⟨v, t, hv, ht, htm⟩ := hstart _ s hkey hs
    exact ⟨v, t, gives_look_compute hkey hv, .start ht htm⟩

theorem serves_start (hsrc : src.Regular) : ∀ n, Serves src src.ahead n (look src (start src n))
  | 0 => look_serves fun _ _ hkey hs => by
    have := fresh_mark_lt hkey (hsrc.listed _ (isSettled_eq_false_iff.mp hkey).1)
    omega
  | n + 1 => look_serves fun _ _ hkey hs => start_gives hsrc (serves_start hsrc n) hkey hs

/-- **Reading a cell succeeds**, and does what the relation says. -/
theorem read_does (hsrc : src.Regular) (label : String) (s : State) : ∃ v t,
    Gives (read src label) s (.ok v) t ∧
      Does src src.ahead (.read (Label.normalize label) v) s t :=
  serves_start hsrc src.formulas.length label s List.countP_le_length

/-! ### The plain walk -/

/-- A session that reads nothing ahead. -/
abbrev nothingAhead : String → List String := fun _ => []

theorem startNested_gives (hsrc : src.Regular) {n : Nat} {key : String} {s : State}
    (hread : Serves src nothingAhead n (look src (startNested src n)))
    (hkey : isSettled src s key = false) (hs : fresh src s ≤ n + 1) :
    ∃ v t, Gives (startNested src (n + 1) key (formulaAt src key)) s (.ok v) t ∧
      Does src nothingAhead (.compute key) s t ∧ t.memo[key]? = some v := by
  have hform := (isSettled_eq_false_iff.mp hkey).1
  have hlt := fresh_mark_lt hkey (hsrc.listed key hform)
  obtain ⟨r, u, he, hu⟩ := hread.settles hsrc key (s.mark key) hform (by omega)
  refine ⟨(settle key r u).1, _, ?_, .compute hkey .nothing hu, ?_⟩
  · unfold startNested
    refine (gives_modify _ _).bind ((gives_settle he).bind ?_)
    exact (gives_modify _ _).bind (gives_pure _ _)
  · rw [memo_unmark, memo_settle_self]

theorem serves_startNested (hsrc : src.Regular) :
    ∀ n, Serves src nothingAhead n (look src (startNested src n))
  | 0 => look_serves fun _ _ hkey hs => by
    have := fresh_mark_lt hkey (hsrc.listed _ (isSettled_eq_false_iff.mp hkey).1)
    omega
  | n + 1 => look_serves fun _ _ hkey hs =>
    startNested_gives hsrc (serves_startNested hsrc n) hkey hs

/-- **The plain walk succeeds**, and does what the relation says. -/
theorem readNested_does (hsrc : src.Regular) (label : String) (s : State) : ∃ v t,
    Gives (readNested src label) s (.ok v) t ∧
      Does src nothingAhead (.read (Label.normalize label) v) s t :=
  serves_startNested hsrc src.formulas.length label s List.countP_le_length

end Session

end Spreadsheet
