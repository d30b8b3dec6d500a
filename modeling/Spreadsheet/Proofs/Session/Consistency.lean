import Spreadsheet.Proofs.Session.Execution

/-! # Consistency of a session

While a cell runs, others are computed from what has been found so far, and a cell that is read
while it runs reads as 0. No value that has been read changes afterwards: what a session knows
(`State.known`) only grows, and every cell that is remembered agrees with its own formula over what
is known (`Sound`).

* `sound_mark`, `sound_fail`, `sound_remember`, `sound_settle`: one step keeps a state sound.
* `Does.sound`: so does whatever a session does. -/

namespace Spreadsheet

namespace OrderedMap

variable {κ α : Type} [DecidableEq κ]

theorem contains_iff {m : OrderedMap κ α} {key : κ} :
    m.contains key = true ↔ ∃ a, m.get? key = some a := by
  induction m with
  | nil => simp [contains, get?]
  | cons entry m ih =>
    obtain ⟨k, a⟩ := entry
    by_cases h : key = k
    · simp [contains, get?, h]
    · have hk : (key == k) = false := beq_false_of_ne h
      simpa [contains, get?, List.lookup_cons, hk, Ne.symm h] using ih

end OrderedMap

namespace Session

/-- What a session knows of a cell: the value found; 0 while it runs with a cycle closed on it. -/
def State.known (s : State) : Knowledge := fun key =>
  match s.memo[key]? with
  | some v => some v
  | none => if key ∈ s.running ∧ s.errors.contains key = true then some (.int 0) else none

/-- The value and the failure of a cell are those that its formula came to; if a cycle was closed on
it, the value is dropped. -/
def Recorded (r : Except Fault Scalar) (value : Scalar) : Option CellError → Prop
  | none => r = .ok value
  | some (.fault f) => r = .error f ∧ value = .int 0
  | some .cycle => (∃ v, r = .ok v) ∧ value = .int 0

/-- **A sound state.** The cells that run have no value yet; failures are of cells that read as 0;
every remembered cell agrees with what it holds. -/
structure Sound (src : Source) (s : State) : Prop where
  running : ∀ k ∈ s.running, src.HasFormula k ∧ k ∉ s.memo
  failed : ∀ k e, s.errors.get? k = some e →
    src.HasFormula k ∧ (s.memo[k]? = some (.int 0) ∨ k ∈ s.running ∧ e = .cycle)
  literal : ∀ k v, ¬ src.HasFormula k → s.memo[k]? = some v → v = src.literal k
  formula : ∀ k v, src.HasFormula k → s.memo[k]? = some v → ∃ r,
    (src.inquiry k).resolve s.known = some r ∧ Recorded r v (s.errors.get? k)

variable {src : Source} {ahead : String → List String} {s t u : State} {key : String}

theorem sound_empty (src : Source) : Sound src {} where
  running _ h := by simp at h
  failed _ _ h := by simp [OrderedMap.get?] at h
  literal _ _ _ h := by simp at h
  formula _ _ _ h := by simp at h

theorem known_of_memo {l : String} {v : Scalar} (h : s.memo[l]? = some v) :
    s.known l = some v := by
  simp only [State.known, h]

theorem known_of_closed {l : String} {e : CellError} (hm : s.memo[l]? = none)
    (hr : l ∈ s.running) (he : s.errors.get? l = some e) : s.known l = some (.int 0) := by
  simp only [State.known, hm]
  rw [if_pos ⟨hr, OrderedMap.contains_iff.mpr ⟨e, he⟩⟩]

theorem known_eq_some {l : String} {v : Scalar} : s.known l = some v ↔ s.memo[l]? = some v ∨
    s.memo[l]? = none ∧ v = .int 0 ∧ l ∈ s.running ∧ ∃ e, s.errors.get? l = some e := by
  unfold State.known
  cases s.memo[l]? with
  | some w => simp
  | none =>
    rw [← OrderedMap.contains_iff]
    by_cases h : l ∈ s.running ∧ s.errors.contains l = true
    · simp [h, eq_comm]
    · simp [h]

/-- Whatever keeps the values, and the failures of the cells that run on, keeps what is known. -/
theorem known_extends (hm : ∀ (l : String) (v : Scalar), s.memo[l]? = some v → t.memo[l]? = some v)
    (hr : ∀ l ∈ s.running, ∀ e, s.errors.get? l = some e → t.memo[l]? = some (.int 0) ∨
      t.memo[l]? = none ∧ l ∈ t.running ∧ ∃ e, t.errors.get? l = some e) :
    s.known.Extends t.known := by
  intro l v h
  rcases known_eq_some.mp h with h | ⟨-, rfl, hl, e, he⟩
  · exact known_of_memo (hm l v h)
  · rcases hr l hl e he with h | ⟨hn, hl, e, he⟩
    · exact known_of_memo h
    · exact known_of_closed hn hl he

/-! ### One step -/

theorem sound_mark (hs : Sound src s) (hkey : isSettled src s key = false) :
    Sound src (s.mark key) ∧ s.known.Extends (s.mark key).known := by
  obtain ⟨hform, hmemo, hrun⟩ := isSettled_eq_false_iff.mp hkey
  have hext : s.known.Extends (s.mark key).known :=
    known_extends (fun _ _ h => h) fun l hl e he => Or.inr
      ⟨memo_none_iff.mpr (hs.running l hl).2, List.mem_cons_of_mem key hl, e, he⟩
  refine ⟨⟨?_, ?_, hs.literal, ?_⟩, hext⟩
  · rintro k (_ | ⟨_, hk⟩)
    · exact ⟨hform, hmemo⟩
    · exact hs.running k hk
  · intro k e he
    obtain ⟨hk, h⟩ := hs.failed k e he
    exact ⟨hk, h.imp_right (And.imp_left (List.mem_cons_of_mem key))⟩
  · intro k v hk hv
    obtain ⟨r, hr, h⟩ := hs.formula k v hk hv
    exact ⟨r, Inquiry.resolve_mono hext hr, h⟩

theorem sound_fail (hs : Sound src s) (hm : s.memo[key]? = none) (hrun : key ∈ s.running) :
    Sound src (s.fail key .cycle) ∧ s.known.Extends (s.fail key .cycle).known := by
  have hne {k v} (h : s.memo[k]? = some v) : k ≠ key := by
    rintro rfl
    simp [hm] at h
  have hget {k} (h : k ≠ key) : (s.fail key .cycle).errors.get? k = s.errors.get? k :=
    OrderedMap.get?_insert_of_ne h _ _
  have hext : s.known.Extends (s.fail key .cycle).known := by
    refine known_extends (fun _ _ h => h) fun l hl e he => Or.inr
      ⟨memo_none_iff.mpr (hs.running l hl).2, hl, ?_⟩
    by_cases h : l = key
    · exact ⟨.cycle, h ▸ OrderedMap.get?_insert_self _ _ _⟩
    · exact ⟨e, (hget h).trans he⟩
  refine ⟨⟨hs.running, ?_, hs.literal, ?_⟩, hext⟩
  · intro k e he
    by_cases h : k = key
    · obtain rfl := h
      refine ⟨(hs.running k hrun).1, Or.inr ⟨hrun, ?_⟩⟩
      exact Option.some.inj (he.symm.trans (OrderedMap.get?_insert_self _ _ _))
    · exact hs.failed k e ((hget h).symm.trans he)
  · intro k v hk hv
    obtain ⟨r, hr, h⟩ := hs.formula k v hk hv
    exact ⟨r, Inquiry.resolve_mono hext hr, (hget (hne hv)).symm ▸ h⟩

theorem sound_remember (hs : Sound src s) (hm : s.memo[key]? = none)
    (hform : ¬ src.HasFormula key) :
    Sound src (s.remember key (src.literal key)) ∧
      s.known.Extends (s.remember key (src.literal key)).known := by
  have hget {k} (h : k ≠ key) : (s.remember key (src.literal key)).memo[k]? = s.memo[k]? := by
    simp [State.remember, Std.HashMap.getElem?_insert, Ne.symm h]
  have hne {k} (h : src.HasFormula k) : k ≠ key := fun he => hform (he ▸ h)
  have hext : s.known.Extends (s.remember key (src.literal key)).known := by
    refine known_extends (fun l v h => ?_) fun l hl e he => Or.inr ?_
    · rw [hget (by rintro rfl; simp [hm] at h), h]
    · have hl' := hs.running l hl
      exact ⟨(hget (hne hl'.1)).trans (memo_none_iff.mpr hl'.2), hl, e, he⟩
  refine ⟨⟨?_, ?_, ?_, ?_⟩, hext⟩
  · intro k hk
    have hk' := hs.running k hk
    exact ⟨hk'.1, memo_none_iff.mp ((hget (hne hk'.1)).trans (memo_none_iff.mpr hk'.2))⟩
  · intro k e he
    obtain ⟨hk, h⟩ := hs.failed k e he
    exact ⟨hk, h.imp_left (hget (hne hk)).trans⟩
  · intro k v hk hv
    by_cases h : k = key
    · subst h
      simpa [State.remember, eq_comm] using hv
    · exact hs.literal k v hk ((hget h).symm.trans hv)
  · intro k v hk hv
    obtain ⟨r, hr, h⟩ := hs.formula k v hk ((hget (hne hk)).symm.trans hv)
    exact ⟨r, Inquiry.resolve_mono hext hr, h⟩

theorem contains_of_get? {e : CellError} {l : String} (h : s.errors.get? l = some e) :
    s.errors.contains l = true :=
  OrderedMap.contains_iff.mpr ⟨e, h⟩

theorem errors_settle_of_ne {k : String} (r : Except Fault Scalar) (h : k ≠ key) :
    (settle key r s).2.errors.get? k = s.errors.get? k := by
  cases r with
  | ok v => rfl
  | error f => exact OrderedMap.get?_insert_of_ne h _ _

/-- A cell on which a cycle was closed while it ran reads as 0. -/
theorem settle_of_closed {e : CellError} (r : Except Fault Scalar)
    (he : s.errors.get? key = some e) : (settle key r s).1 = .int 0 := by
  cases r with
  | ok v => simp [settle, contains_of_get? he]
  | error f => rfl

theorem settle_of_failed {e : CellError} {r : Except Fault Scalar}
    (he : (settle key r s).2.errors.get? key = some e) : (settle key r s).1 = .int 0 := by
  cases r with
  | ok v => exact settle_of_closed (.ok v) he
  | error f => rfl

/-- What is recorded of a cell when it is settled. -/
theorem recorded_settle {r : Except Fault Scalar}
    (hcycle : ∀ e, s.errors.get? key = some e → e = .cycle) :
    Recorded r (settle key r s).1 ((settle key r s).2.errors.get? key) := by
  cases r with
  | ok v =>
    show Recorded _ _ (s.errors.get? key)
    cases he : s.errors.get? key with
    | none =>
      have hc : ¬ s.errors.contains key = true := fun h => by
        obtain ⟨e, h⟩ := OrderedMap.contains_iff.mp h
        simp [he] at h
      simp [Recorded, settle, hc]
    | some e =>
      rw [hcycle e he]
      exact ⟨⟨v, rfl⟩, settle_of_closed (.ok v) he⟩
  | error f =>
    have : (settle key (.error f) s).2.errors.get? key = some (.fault f) :=
      OrderedMap.get?_insert_self _ _ _
    rw [this]
    exact ⟨rfl, rfl⟩

/-- A cell that has run is settled over what is known. -/
theorem sound_settle {r : Except Fault Scalar} {below : List String} (hs : Sound src s)
    (hrun : s.running = key :: below) (hkey : key ∉ below)
    (hr : (src.inquiry key).resolve s.known = some r) :
    Sound src ((settle key r s).2.unmark key) ∧
      s.known.Extends ((settle key r s).2.unmark key).known := by
  obtain ⟨hform, hmemo⟩ := hs.running key (by simp [hrun])
  have hrunning : ((settle key r s).2.unmark key).running = below :=
    running_unmark (by rw [running_settle, hrun]) hkey
  have hget {k} (h : k ≠ key) : ((settle key r s).2.unmark key).memo[k]? = s.memo[k]? := by
    rw [memo_unmark, memo_settle, Std.HashMap.getElem?_insert]
    simp [Ne.symm h]
  have hself : ((settle key r s).2.unmark key).memo[key]? = some (settle key r s).1 := by
    rw [memo_unmark, memo_settle_self]
  have hne {k} (h : k ∈ below) : k ≠ key := fun he => hkey (he ▸ h)
  have hbelow {k} (h : k ∈ below) : src.HasFormula k ∧ k ∉ s.memo :=
    hs.running k (by simp [hrun, h])
  have hext : s.known.Extends ((settle key r s).2.unmark key).known := by
    refine known_extends (fun l v h => ?_) fun l hl e he => ?_
    · rw [hget fun h' => hmemo (h' ▸ mem_of_memo h), h]
    · by_cases h : l = key
      · subst h
        exact Or.inl (hself.trans (congrArg some (settle_of_closed r he)))
      · have hl' : l ∈ below := by simpa [hrun, h] using hl
        refine Or.inr ⟨(hget h).trans (memo_none_iff.mpr (hbelow hl').2), hrunning ▸ hl', e, ?_⟩
        rw [errors_unmark, errors_settle_of_ne r h, he]
  refine ⟨⟨?_, ?_, ?_, ?_⟩, hext⟩
  · intro k hk
    rw [hrunning] at hk
    have hnone := (hget (hne hk)).trans (memo_none_iff.mpr (hbelow hk).2)
    exact ⟨(hbelow hk).1, memo_none_iff.mp hnone⟩
  · intro k e he
    rw [errors_unmark] at he
    by_cases h : k = key
    · subst h
      exact ⟨hform, Or.inl (hself.trans (congrArg some (settle_of_failed he)))⟩
    · rw [errors_settle_of_ne r h] at he
      obtain ⟨hk, h'⟩ := hs.failed k e he
      refine ⟨hk, h'.imp (hget h).trans (And.imp_left fun hk => ?_)⟩
      simpa [hrunning, hrun, h] using hk
  · intro k v hk hv
    have h : k ≠ key := fun he => hk (he ▸ hform)
    exact hs.literal k v hk ((hget h).symm.trans hv)
  · intro k v hk hv
    by_cases h : k = key
    · subst h
      obtain rfl := Option.some.inj (hself.symm.trans hv)
      refine ⟨r, Inquiry.resolve_mono hext hr, recorded_settle fun e he => ?_⟩
      rcases (hs.failed k e he).2 with h | h
      · exact absurd (memo_none_iff.mpr hmemo) (by simp [h])
      · exact h.2
    · obtain ⟨r', hr', h'⟩ := hs.formula k v hk ((hget h).symm.trans hv)
      refine ⟨r', Inquiry.resolve_mono hext hr', ?_⟩
      rwa [errors_unmark, errors_settle_of_ne r h]

/-! ### All steps -/

/-- What a session has come to know by a task. -/
def Task.Met (t : State) : Task → Prop
  | prefetch _ => True
  | compute key => ∃ v, t.memo[key]? = some v
  | run q r => q.resolve t.known = some r
  | read key v => t.known key = some v

/-- **What a session does keeps its state sound and adds to what it knows.** -/
theorem Does.sound {task : Task} (h : Does src ahead task s t) (hs : Sound src s) :
    Sound src t ∧ s.known.Extends t.known ∧ task.Met t := by
  induction h with
  | nothing => exact ⟨hs, fun _ _ h => h, trivial⟩
  | skip _ _ ih => exact ih hs
  | visit _ _ ih ih' =>
    obtain ⟨ht, hst, -⟩ := ih hs
    obtain ⟨hu, htu, -⟩ := ih' ht
    exact ⟨hu, fun l v h => htu l v (hst l v h), trivial⟩
  | compute hkey hp hq ih ih' =>
    obtain ⟨hm, hsm⟩ := sound_mark hs hkey
    obtain ⟨ht, hmt, -⟩ := ih hm
    obtain ⟨hu, htu, hr⟩ := ih' ht
    have hrun := hq.grows.running.trans hp.grows.running
    obtain ⟨hw, huw⟩ := sound_settle hu hrun (isSettled_eq_false_iff.mp hkey).2.2 hr
    refine ⟨hw, fun l v h => huw l v (htu l v (hmt l v (hsm l v h))), ?_⟩
    exact ⟨_, by rw [memo_unmark, memo_settle_self]⟩
  | answer => exact ⟨hs, fun _ _ h => h, rfl⟩
  | ask _ _ ih ih' =>
    obtain ⟨ht, hst, hv⟩ := ih hs
    obtain ⟨hu, htu, hr⟩ := ih' ht
    refine ⟨hu, fun l v h => htu l v (hst l v h), ?_⟩
    exact Option.bind_eq_some_iff.mpr ⟨_, htu _ _ hv, hr⟩
  | remembered hv => exact ⟨hs, fun _ _ h => h, known_of_memo hv⟩
  | closed hm hr =>
    obtain ⟨ht, hst⟩ := sound_fail hs hm hr
    exact ⟨ht, hst, known_of_closed hm hr (OrderedMap.get?_insert_self _ _ _)⟩
  | literal hm hr hf =>
    obtain ⟨ht, hst⟩ := sound_remember hs hm hf
    exact ⟨ht, hst, known_of_memo (Std.HashMap.getElem?_insert_self)⟩
  | start _ hv ih =>
    obtain ⟨ht, hst, -⟩ := ih hs
    exact ⟨ht, hst, known_of_memo hv⟩

end Session

end Spreadsheet
