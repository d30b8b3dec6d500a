import Spreadsheet.Grid
import Spreadsheet.Proofs.Session.Agreement
import Spreadsheet.Proofs.Session.Regular

/-! # Sequences of requests

A session is asked for cells, ranges, all formula cells, and grids. Whatever the requests are, what
happens is that cells are read one after the other (`Answers`), so what holds at the start and is
kept by reading a cell holds after all of them.

* `transfer_performBy`: what the readings of cells have in common, requests have in common.
* `readsCells_perform`: a request reads cells one after the other.
* `answers_foldl`: so do requests after any others.
* `Answers.sound`, `Answers.agrees`: what reading a cell keeps, along a session. -/

namespace Spreadsheet.Session

/-- What a session can be asked for. -/
inductive Request where
  | cell (label : String)
  | range (first last : String)
  | all
  | grid (marker : String)

/-- Answers a request in a session over the cells of a grid of `rows` by `cols`, where each is read
by `read`. -/
def Request.performBy {α : Type} [Content α] {m : Type → Type} [Monad m] [MonadStateOf (State α) m]
    (src : Source α) (rows cols : Nat) (read : String → ExceptT Fault m α) :
    Request → ExceptT Fault m Unit
  | cell label => do
    let _ ← read label
  | range first last => do
    let _ ← readRangeBy read first last
  | all => do
    let _ ← readAllBy src read
  | grid marker => do
    let _ ← gridBy src read marker rows cols

/-- Answers a request in a session over a sheet. -/
def Request.perform (sheet : Sheet) : Request → Run Unit :=
  performBy sheet.source sheet.rows sheet.cols (read sheet.source)

/-- The state after a request to a session over the cells of a grid of `rows` by `cols`. A request
that fails leaves what has been found before. -/
def Request.nextOver {α : Type} [Content α] (src : Source α) (rows cols : Nat) (s : State α)
    (request : Request) : State α :=
  (StateT.run (request.performBy src rows cols (read src)).run s).2

/-- The state of a session over the cells of a grid of `rows` by `cols` after requests. -/
def afterOver {α : Type} [Content α] (src : Source α) (rows cols : Nat)
    (requests : List Request) : State α :=
  requests.foldl (Request.nextOver src rows cols) {}

/-- The state after a request to a session over a sheet. -/
def Request.next (sheet : Sheet) : State → Request → State :=
  nextOver sheet.source sheet.rows sheet.cols

/-- The state of a session over a sheet after requests. -/
def after (sheet : Sheet) (requests : List Request) : State :=
  afterOver sheet.source sheet.rows sheet.cols requests

/-! ### What requests hand on -/

section

variable {γ : Type} [Content γ] {m n : Type → Type} [Monad m] [Monad n] [MonadStateOf (State γ) m]
  [MonadStateOf (State γ) n] {rel : ∀ {α : Type}, ExceptT Fault m α → ExceptT Fault n α → Prop}
  {src : Source γ} {f : String → ExceptT Fault m γ} {g : String → ExceptT Fault n γ}

theorem transfer_gridEntry (h : Transfer @rel)
    (hget : rel (get : ExceptT Fault m (State γ)) (get : ExceptT Fault n (State γ)))
    (hread : ∀ l, rel (f l) (g l)) (marker label : String) :
    rel (gridEntryBy src f marker label) (gridEntryBy src g marker label) := by
  have hvalue : rel (shownValueBy src f label) (shownValueBy src g label) := by
    unfold shownValueBy
    split_ifs
    · exact hread label
    · exact h.pure _
  refine h.bind hvalue fun v => h.bind hget fun s => ?_
  split
  · exact h.pure _
  · exact h.pure _

/-- **Requests are in the relation** if readings of cells are. -/
theorem transfer_performBy [LawfulMonad m] [LawfulMonad n] (h : Transfer @rel)
    (hget : rel (get : ExceptT Fault m (State γ)) (get : ExceptT Fault n (State γ)))
    (hread : ∀ l, rel (f l) (g l)) (rows cols : Nat) (request : Request) :
    rel (request.performBy src rows cols f) (request.performBy src rows cols g) := by
  cases request with
  | cell label => exact h.bind (hread label) fun _ => h.pure ()
  | range first last =>
    refine h.bind ?_ fun _ => h.pure ()
    exact h.bind (h.result _) fun labels => h.mapM hread labels
  | all =>
    refine h.bind (h.mapM (fun label => ?_) _) fun _ => h.pure ()
    exact h.bind (hread label) fun v => h.pure (label, v)
  | grid marker =>
    refine h.bind (h.mapM (fun row => ?_) _) fun _ => h.pure ()
    exact h.mapM (fun column => transfer_gridEntry h hget hread marker _) _

end

/-! ### Cells that are read one after the other -/

/-- Cells that are read one after the other, with the values found. -/
inductive Answers (src : Source) (ahead : String → List String) :
    List (String × Scalar) → State → State → Prop
  | nil {s} : Answers src ahead [] s s
  | cons {key v rest s t u} (h : Does src ahead (.read key v) s t)
      (hrest : Answers src ahead rest t u) : Answers src ahead ((key, v) :: rest) s u

variable {src : Source} {ahead : String → List String} {s t u : State}

/-- **What reading a cell keeps** holds after cells have been read. -/
theorem Answers.invariant {p : State → Prop}
    (hp : ∀ {key v s t}, Does src ahead (.read key v) s t → p s → p t)
    {answers : List (String × Scalar)} (h : Answers src ahead answers s t) (hs : p s) : p t := by
  induction h with
  | nil => exact hs
  | cons h _ ih => exact ih (hp h hs)

theorem Answers.append {xs ys : List (String × Scalar)} (h : Answers src ahead xs s t)
    (h' : Answers src ahead ys t u) : Answers src ahead (xs ++ ys) s u := by
  induction h with
  | nil => exact h'
  | cons h _ ih => exact .cons h (ih h')

theorem Answers.grows {answers : List (String × Scalar)} (h : Answers src ahead answers s t) :
    Grows s t := by
  induction h with
  | nil => exact Grows.refl _
  | cons h _ ih => exact h.grows.trans ih

/-! ### Requests -/

/-- Whatever the computation comes to, it reads cells one after the other. -/
def ReadsCells (src : Source) {α : Type} (x : Run α) : Prop :=
  ∀ s, ∃ r t answers, Gives x s r t ∧ Answers src src.ahead answers s t

theorem readsCells_get (src : Source) : ReadsCells src (get : Run State) :=
  fun s => ⟨.ok s, s, [], gives_get s, .nil⟩

theorem transfer_readsCells (src : Source) :
    Transfer fun {α} (x _ : Run α) => ReadsCells src x where
  result r s := ⟨r, s, [], gives_result r s, .nil⟩
  bind hx hf s := by
    obtain ⟨r, t, xs, hr, hxs⟩ := hx s
    cases r with
    | error f => exact ⟨.error f, t, xs, hr.bind_error, hxs⟩
    | ok a =>
      obtain ⟨r, u, ys, hr', hys⟩ := hf a t
      exact ⟨r, u, xs ++ ys, hr.bind hr', hxs.append hys⟩

theorem readsCells_read (hsrc : src.Regular) (label : String) :
    ReadsCells src (read src label) := by
  intro s
  obtain ⟨v, t, hv, ht⟩ := read_does hsrc label s
  exact ⟨.ok v, t, [_], hv, .cons ht .nil⟩

/-- **Every request reads cells one after the other.** -/
theorem readsCells_perform {sheet : Sheet} (hsrc : sheet.source.Regular) (request : Request) :
    ReadsCells sheet.source (request.perform sheet) :=
  transfer_performBy (g := read sheet.source) (transfer_readsCells _) (readsCells_get _)
    (readsCells_read hsrc) _ _ request

theorem answers_foldl {sheet : Sheet} (hsrc : sheet.source.Regular) (requests : List Request)
    (s : State) : ∃ answers, Answers sheet.source sheet.source.ahead answers s
      (requests.foldl (Request.next sheet) s) := by
  induction requests generalizing s with
  | nil => exact ⟨[], .nil⟩
  | cons request requests ih =>
    obtain ⟨r, t, xs, hr, hxs⟩ := readsCells_perform hsrc request s
    obtain ⟨ys, hys⟩ := ih t
    have hnext : Request.next sheet s request = t := congrArg Prod.snd hr
    rw [List.foldl_cons, hnext]
    exact ⟨xs ++ ys, hxs.append hys⟩

/-- **A session reads cells one after the other.** -/
theorem answers_after {sheet : Sheet} (hsrc : sheet.source.Regular) (requests : List Request) :
    ∃ answers, Answers sheet.source sheet.source.ahead answers {} (after sheet requests) :=
  answers_foldl hsrc requests {}

theorem after_append (sheet : Sheet) (requests later : List Request) :
    after sheet (requests ++ later) = later.foldl (Request.next sheet) (after sheet requests) := by
  rw [after, afterOver, List.foldl_append]
  rfl

/-- So it does from what it has come to. -/
theorem answers_append {sheet : Sheet} (hsrc : sheet.source.Regular)
    (requests later : List Request) : ∃ answers, Answers sheet.source sheet.source.ahead answers
      (after sheet requests) (after sheet (requests ++ later)) :=
  after_append sheet requests later ▸ answers_foldl hsrc later _

/-- The value that a session gives for a label. -/
def answer (sheet : Sheet) (s : State) (label : String) : Except Fault Scalar :=
  (StateT.run (read sheet.source label).run s).1

/-- The reader that formulas have in a session. -/
def cellReader (src : Source) (label : String) : Run Value := do
  return .scalar (← read src label)

/-- **Reading a cell** after requests is a request for it. -/
theorem gives_read_after {sheet : Sheet} (hsrc : sheet.source.Regular) (requests : List Request)
    (label : String) : ∃ v, Gives (read sheet.source label) (after sheet requests) (.ok v)
        (after sheet (requests ++ [.cell label])) ∧
      Does sheet.source sheet.source.ahead (.read (Label.normalize label) v) (after sheet requests)
        (after sheet (requests ++ [.cell label])) := by
  obtain ⟨v, t, hv, ht⟩ := read_does hsrc label (after sheet requests)
  have hnext : Request.next sheet (after sheet requests) (.cell label) = t :=
    congrArg Prod.snd (hv.bind (gives_pure () t))
  rw [after_append, List.foldl_cons, List.foldl_nil, hnext]
  exact ⟨v, hv, ht⟩

/-! ### Along a session -/

theorem Answers.sound {answers : List (String × Scalar)} (h : Answers src ahead answers s t)
    (hs : Sound src s) : Sound src t ∧ s.known.Extends t.known := by
  induction h with
  | nil => exact ⟨hs, fun _ _ h => h⟩
  | cons h _ ih =>
    obtain ⟨ht, hst, -⟩ := h.sound hs
    obtain ⟨hu, htu⟩ := ih ht
    exact ⟨hu, fun l v h => htu l v (hst l v h)⟩

/-- What has been answered stays known. -/
theorem Answers.known {answers : List (String × Scalar)} (h : Answers src ahead answers s t)
    (hs : Sound src s) : ∀ x ∈ answers, t.known x.1 = some x.2 := by
  induction h with
  | nil => simp
  | cons h hrest ih =>
    obtain ⟨ht, -, hv⟩ := h.sound hs
    exact List.forall_mem_cons.mpr ⟨(hrest.sound ht).2 _ _ hv, ih ht⟩

theorem Answers.agrees {value : String → Scalar} {cells : String → Prop}
    (hcells : Solves src ahead value cells) {answers : List (String × Scalar)}
    (h : Answers src ahead answers s t) (hrun : s.running = []) (hs : Sound src s)
    (ha : Agrees src value cells s) (hw : ∀ x ∈ answers, src.HasFormula x.1 → cells x.1) :
    Agrees src value cells t ∧ ∀ x ∈ answers, x.2 = value x.1 := by
  induction h with
  | nil => exact ⟨ha, by simp⟩
  | cons h _ ih =>
    obtain ⟨ht, hv⟩ := h.agrees hcells hs ha fun hl =>
      ⟨hw _ List.mem_cons_self hl, fun p hp => by rw [hrun] at hp; cases hp⟩
    obtain ⟨hu, hvs⟩ := ih (h.grows.running.trans hrun) (h.sound hs).1 ht
      fun x hx => hw x (List.mem_cons_of_mem _ hx)
    exact ⟨hu, List.forall_mem_cons.mpr ⟨hv, hvs⟩⟩

theorem gives_mapM {β : Type} {f : String → Run β} {g : String → Scalar → β}
    (hf : ∀ label s, ∃ v t, Gives (f label) s (.ok (g label v)) t ∧
      Does src ahead (.read (Label.normalize label) v) s t) :
    ∀ (labels : List String) (s : State), ∃ vs t, vs.length = labels.length ∧
      Gives (labels.mapM f) s (.ok (List.zipWith g labels vs)) t ∧
        Answers src ahead ((labels.map Label.normalize).zip vs) s t
  | [], s => ⟨[], s, rfl, gives_pure [] s, .nil⟩
  | label :: labels, s => by
    obtain ⟨v, t, hv, ht⟩ := hf label s
    obtain ⟨vs, u, hlen, hvs, hu⟩ := gives_mapM hf labels t
    rw [List.mapM_cons]
    exact ⟨v :: vs, u, congrArg (· + 1) hlen, hv.bind (hvs.bind (gives_pure _ u)), .cons ht hu⟩

/-- All formula cells are read, one after the other. -/
theorem readAll_does (hsrc : src.Regular) (s : State) : ∃ vs t, vs.length = src.formulas.length ∧
    Gives (readAll src) s (.ok (src.formulas.zip vs)) t ∧
      Answers src src.ahead ((src.formulas.map Label.normalize).zip vs) s t :=
  gives_mapM (g := Prod.mk) (fun label s => by
    obtain ⟨v, t, hv, ht⟩ := read_does hsrc label s
    exact ⟨v, t, hv.bind (gives_pure (label, v) t), ht⟩) src.formulas s

/-- After all formula cells have been read, each of them is remembered. -/
theorem mem_memo_of_all {sheet : Sheet} (hsrc : sheet.source.Regular) {requests : List Request}
    (hall : Request.all ∈ requests) {label : String} (hlabel : label ∈ sheet.source.formulas) :
    Label.normalize label ∈ (after sheet requests).memo := by
  obtain ⟨before, rest, rfl⟩ := List.append_of_mem hall
  obtain ⟨xs, hxs⟩ := answers_after hsrc before
  obtain ⟨vs, t, hlen, hvs, ht⟩ := readAll_does hsrc (after sheet before)
  have hnext : Request.next sheet (after sheet before) .all = t :=
    congrArg Prod.snd (hvs.bind (gives_pure () t))
  have hkeys : Label.normalize label ∈
      ((sheet.source.formulas.map Label.normalize).zip vs).map Prod.fst := by
    rw [List.map_fst_zip (by simp [hlen])]
    exact List.mem_map_of_mem hlabel
  obtain ⟨⟨key, v⟩, hmem, hkey⟩ := List.mem_map.mp hkeys
  have hknown := ht.known (hxs.sound (sound_empty _)).1 _ hmem
  have hrun : t.running = [] := ht.grows.running.trans hxs.grows.running
  obtain ⟨ys, hys⟩ := answers_foldl hsrc rest t
  rw [after_append, List.foldl_cons, hnext, ← hkey]
  exact hys.grows.memo _ (mem_of_memo (mem_memo_of_known hrun hknown))

theorem agrees_empty (src : Source) (value : String → Scalar) (cells : String → Prop) :
    Agrees src value cells {} where
  memo l v h := by simp at h
  errors c e := by simp [OrderedMap.get?]

end Spreadsheet.Session
