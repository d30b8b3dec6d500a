import Spreadsheet.Proofs.Session.Requests

/-! # States that go on alike

Two states go on alike if they have the same marks, the same values of formula cells, and the same
failures, but for cycles that one of them has recorded of running cells (`Alike`). What a session
does from one of them it does from the other (`Does.alike`), and it has no choice (`Does.det`). -/

namespace Spreadsheet.Session

/-- The second state goes on like the first, with cycles recorded of the running cells `flagged`. -/
structure Alike (src : Source) (flagged : String → Prop) (s t : State) : Prop where
  running : t.running = s.running
  memo : ∀ l, src.HasFormula l → t.memo[l]? = s.memo[l]?
  flag : ∀ l, flagged l → l ∈ s.running ∧ t.errors.get? l = some .cycle
  errors : ∀ l, ¬ flagged l → t.errors.get? l = s.errors.get? l

/-- No cell is flagged. -/
abbrev noFlag : String → Prop := fun _ => False

variable {src : Source} {ahead : String → List String} {flagged : String → Prop}
  {s t u s' : State} {key : String}

theorem Alike.refl (src : Source) (s : State) : Alike src noFlag s s :=
  ⟨rfl, fun _ _ => rfl, fun _ h => h.elim, fun _ _ => rfl⟩

theorem Alike.trans (h : Alike src noFlag s t) (h' : Alike src noFlag t u) :
    Alike src noFlag s u :=
  ⟨h'.running.trans h.running, fun l hl => (h'.memo l hl).trans (h.memo l hl), fun _ h => h.elim,
    fun l hl => (h'.errors l hl).trans (h.errors l hl)⟩

theorem Alike.isSettled_eq (h : Alike src flagged s t) (l : String) :
    isSettled src t l = isSettled src s l := by
  rw [Bool.eq_iff_iff, isSettled_iff, isSettled_iff, h.running]
  by_cases hl : src.HasFormula l
  · have : l ∈ t.memo ↔ l ∈ s.memo := by
      rw [← not_iff_not, ← memo_none_iff, ← memo_none_iff, h.memo l hl]
    rw [this]
  · simp [hl]

theorem Alike.mark (h : Alike src flagged s t) (key : String) :
    Alike src flagged (s.mark key) (t.mark key) :=
  ⟨congrArg (key :: ·) h.running, h.memo,
    fun l hl => ⟨List.mem_cons_of_mem key (h.flag l hl).1, (h.flag l hl).2⟩, h.errors⟩

theorem Alike.fail (h : Alike src flagged s t) (key : String) :
    Alike src flagged (s.fail key .cycle) (t.fail key .cycle) := by
  refine ⟨h.running, h.memo, fun l hl => ⟨(h.flag l hl).1, ?_⟩, fun l hl => ?_⟩
  · by_cases hk : l = key
    · exact hk ▸ OrderedMap.get?_insert_self _ _ _
    · exact (OrderedMap.get?_insert_of_ne hk _ _).trans (h.flag l hl).2
  · by_cases hk : l = key
    · subst hk
      exact (OrderedMap.get?_insert_self _ _ _).trans (OrderedMap.get?_insert_self _ _ _).symm
    · refine (OrderedMap.get?_insert_of_ne hk _ _).trans ?_
      exact (h.errors l hl).trans (OrderedMap.get?_insert_of_ne hk _ _).symm

/-- A cell without formula makes no difference, whether it has been read or not. -/
theorem Alike.remember_left (h : Alike src flagged s t) (hkey : ¬ src.HasFormula key) (v : Scalar) :
    Alike src flagged (s.remember key v) t := by
  refine ⟨h.running, fun l hl => (h.memo l hl).trans ?_, h.flag, h.errors⟩
  have hne : ¬ key = l := fun he => hkey (he ▸ hl)
  simp [State.remember, Std.HashMap.getElem?_insert, hne]

theorem Alike.remember_right (h : Alike src flagged s t) (hkey : ¬ src.HasFormula key)
    (v : Scalar) : Alike src flagged s (t.remember key v) := by
  refine ⟨h.running, fun l hl => Eq.trans ?_ (h.memo l hl), h.flag, h.errors⟩
  have hne : ¬ key = l := fun he => hkey (he ▸ hl)
  simp [State.remember, Std.HashMap.getElem?_insert, hne]

/-- A cycle that is recorded of a running cell flags it. -/
theorem alike_fail (hkey : key ∈ s.running) :
    Alike src (· = key) s (s.fail key .cycle) := by
  refine ⟨rfl, fun _ _ => rfl, ?_, fun l hl => OrderedMap.get?_insert_of_ne hl _ _⟩
  rintro l rfl
  exact ⟨hkey, OrderedMap.get?_insert_self _ _ _⟩

theorem Alike.fail_left (h : Alike src (· = key) s t) :
    Alike src noFlag (s.fail key .cycle) t := by
  refine ⟨h.running, h.memo, fun _ hl => hl.elim, fun l _ => ?_⟩
  by_cases hk : l = key
  · exact hk ▸ (h.flag key rfl).2.trans (OrderedMap.get?_insert_self _ _ _).symm
  · exact (h.errors l hk).trans (OrderedMap.get?_insert_of_ne hk _ _).symm

theorem Alike.settle {below : List String} (h : Alike src flagged s t)
    (hrun : s.running = key :: below) (hkey : key ∉ below) (hflag : ¬ flagged key)
    (r : Except Fault Scalar) :
    Alike src flagged ((settle key r s).2.unmark key) ((settle key r t).2.unmark key) := by
  have hvalue : (Session.settle key r t).1 = (Session.settle key r s).1 := by
    cases r with
    | ok v =>
      have : t.errors.contains key = s.errors.contains key := by
        rw [Bool.eq_iff_iff, OrderedMap.contains_iff, OrderedMap.contains_iff, h.errors key hflag]
      simp [Session.settle, this]
    | error f => rfl
  have hrun' {x : State} (hx : x.running = key :: below) :
      ((Session.settle key r x).2.unmark key).running = below :=
    running_unmark (by rw [running_settle, hx]) hkey
  refine ⟨?_, fun l hl => ?_, fun l hl => ?_, fun l hl => ?_⟩
  · rw [hrun' hrun, hrun' (h.running.trans hrun)]
  · rw [memo_unmark, memo_unmark, memo_settle, memo_settle, Std.HashMap.getElem?_insert,
      Std.HashMap.getElem?_insert, hvalue, h.memo l hl]
  · have hne : l ≠ key := fun he => hflag (he ▸ hl)
    rw [hrun' hrun, errors_unmark, errors_settle_of_ne r hne]
    refine ⟨?_, (h.flag l hl).2⟩
    simpa [hrun, hne] using (h.flag l hl).1
  · rw [errors_unmark, errors_unmark]
    by_cases hk : l = key
    · subst hk
      cases r with
      | ok v => exact h.errors l hl
      | error f =>
        exact (OrderedMap.get?_insert_self _ _ _).trans (OrderedMap.get?_insert_self _ _ _).symm
    · rw [errors_settle_of_ne r hk, errors_settle_of_ne r hk, h.errors l hl]

/-- **States that are alike stay alike.** -/
theorem Does.alike {task : Task} (h : Does src ahead task s t) (hs : Sound src s)
    (hs' : Sound src s') (ha : Alike src flagged s s') :
    ∃ t', Does src ahead task s' t' ∧ Alike src flagged t t' := by
  induction h generalizing s' with
  | nothing => exact ⟨s', .nothing, ha⟩
  | skip hl _ ih =>
    obtain ⟨t', ht', hat⟩ := ih hs hs' ha
    exact ⟨t', .skip (by rw [ha.isSettled_eq, hl]) ht', hat⟩
  | visit hl _ ih ih' =>
    obtain ⟨t', ht', hat⟩ := ih hs hs' ha
    obtain ⟨u', hu', hau⟩ := ih' (hl.sound hs).1 (ht'.sound hs').1 hat
    exact ⟨u', .visit ht' hu', hau⟩
  | @compute key r s t u hkey hp hq ih ih' =>
    have hkey' : isSettled src s' key = false := by rw [ha.isSettled_eq, hkey]
    have hm := (sound_mark hs hkey).1
    have hm' := (sound_mark hs' hkey').1
    obtain ⟨t', ht', hat⟩ := ih hm hm' (ha.mark key)
    obtain ⟨u', hu', hau⟩ := ih' (hp.sound hm).1 (ht'.sound hm').1 hat
    have hrun : u.running = key :: s.running := hq.grows.running.trans hp.grows.running
    have hnot := (isSettled_eq_false_iff.mp hkey).2.2
    refine ⟨_, .compute hkey' ht' hu', ?_⟩
    -- a flagged cell ran before this one was marked
    exact hau.settle hrun hnot (fun hf => hnot (ha.flag key hf).1) r
  | answer => exact ⟨s', .answer, ha⟩
  | ask hl _ ih ih' =>
    obtain ⟨t', ht', hat⟩ := ih hs hs' ha
    obtain ⟨u', hu', hau⟩ := ih' (hl.sound hs).1 (ht'.sound hs').1 hat
    exact ⟨u', .ask ht' hu', hau⟩
  | @remembered key v s hv =>
    by_cases hf : src.HasFormula key
    · exact ⟨s', .remembered ((ha.memo key hf).trans hv), ha⟩
    · obtain rfl := hs.literal key v hf hv
      cases hm : s'.memo[key]? with
      | some w =>
        obtain rfl := hs'.literal key w hf hm
        exact ⟨s', .remembered hm, ha⟩
      | none =>
        have hr : key ∉ s'.running := fun h => hf (hs'.running key h).1
        exact ⟨_, .literal hm hr hf, ha.remember_right hf _⟩
  | @closed key s hm hr =>
    have hf := (hs.running key hr).1
    exact ⟨_, .closed ((ha.memo key hf).trans hm) (ha.running ▸ hr), ha.fail key⟩
  | @literal key s hm hr hf =>
    cases hm' : s'.memo[key]? with
    | some w =>
      obtain rfl := hs'.literal key w hf hm'
      exact ⟨s', .remembered hm', ha.remember_left hf _⟩
    | none =>
      refine ⟨_, .literal hm' (ha.running ▸ hr) hf, ?_⟩
      exact (ha.remember_left hf _).remember_right hf _
  | @start key v s t h hv ih =>
    obtain ⟨t', ht', hat⟩ := ih hs hs' ha
    have hf : src.HasFormula key := by
      cases h with
      | compute hkey => exact (isSettled_eq_false_iff.mp hkey).1
    exact ⟨t', .start ht' ((hat.memo key hf).trans hv), hat⟩

/-- What is known in states that are alike differs in cells without formula at most. -/
theorem Alike.known_extends {value : String → Scalar} (h : Alike src noFlag s t)
    (ht : Sound src t) (hliteral : ∀ l, ¬ src.HasFormula l → value l = src.literal l)
    (hs : s.known.Extends (Inquiry.table value)) : t.known.Extends (Inquiry.table value) := by
  intro l v hv
  by_cases hl : src.HasFormula l
  · refine hs l v (known_eq_some.mpr ?_)
    rw [← h.memo l hl, ← h.running, ← h.errors l id]
    exact known_eq_some.mp hv
  · rcases known_eq_some.mp hv with hv | ⟨-, -, hr, -⟩
    · rw [ht.literal l v hl hv, ← hliteral l hl]
    · exact absurd (ht.running l hr).1 hl

/-! ### No choice -/

/-- The same task, with results that may differ. -/
def Task.Same : Task → Task → Prop
  | prefetch labels, prefetch labels' => labels = labels'
  | compute key, compute key' => key = key'
  | run q _, run q' _ => q = q'
  | read key _, read key' _ => key = key'
  | _, _ => False

theorem Does.not_settled (h : Does src ahead (.compute key) s t) :
    isSettled src s key = false := by
  cases h with
  | compute hkey => exact hkey

theorem Does.unsettled_iff (h : Does src ahead (.compute key) s t) :
    src.HasFormula key ∧ s.memo[key]? = none ∧ key ∉ s.running := by
  obtain ⟨hf, hm, hr⟩ := isSettled_eq_false_iff.mp h.not_settled
  exact ⟨hf, memo_none_iff.mpr hm, hr⟩

/-- **A session has no choice**: a task has one result and leads to one state. -/
theorem Does.det {task task' : Task} {t' : State} (h : Does src ahead task s t)
    (h' : Does src ahead task' s t') (hsame : task.Same task') : task = task' ∧ t = t' := by
  induction h generalizing task' t' with
  | nothing =>
    cases h' <;> cases hsame
    exact ⟨rfl, rfl⟩
  | skip hl _ ih =>
    cases h' with
    | skip _ h' =>
      cases hsame
      exact ⟨rfl, (ih h' rfl).2⟩
    | visit h' => cases hsame; simp [h'.not_settled] at hl
    | _ => cases hsame
  | visit hl _ ih ih' =>
    cases h' with
    | skip hl' => cases hsame; simp [hl.not_settled] at hl'
    | visit hl' h' =>
      cases hsame
      obtain ⟨-, rfl⟩ := ih hl' rfl
      exact ⟨rfl, (ih' h' rfl).2⟩
    | _ => cases hsame
  | compute _ _ _ ih ih' =>
    cases h' with
    | compute _ hp hq =>
      cases hsame
      obtain ⟨-, rfl⟩ := ih hp rfl
      obtain ⟨he, rfl⟩ := ih' hq rfl
      cases he
      exact ⟨rfl, rfl⟩
    | _ => cases hsame
  | answer =>
    cases h' with
    | answer => cases hsame; exact ⟨rfl, rfl⟩
    | _ => cases hsame
  | ask _ _ ih ih' =>
    cases h' with
    | ask hl h' =>
      cases hsame
      obtain ⟨he, rfl⟩ := ih hl rfl
      cases he
      obtain ⟨he, rfl⟩ := ih' h' rfl
      cases he
      exact ⟨rfl, rfl⟩
    | _ => cases hsame
  | remembered hv =>
    cases h' with
    | remembered hv' =>
      cases hsame
      cases Option.some.inj (hv.symm.trans hv')
      exact ⟨rfl, rfl⟩
    | closed hm | literal hm => cases hsame; cases hv.symm.trans hm
    | start h => cases hsame; cases hv.symm.trans h.unsettled_iff.2.1
    | _ => cases hsame
  | closed hm hr =>
    cases h' with
    | remembered hv => cases hsame; cases hv.symm.trans hm
    | closed => cases hsame; exact ⟨rfl, rfl⟩
    | literal _ hr' => cases hsame; exact absurd hr hr'
    | start h => cases hsame; exact absurd hr h.unsettled_iff.2.2
    | _ => cases hsame
  | literal hm hr hf =>
    cases h' with
    | remembered hv => cases hsame; cases hv.symm.trans hm
    | closed _ hr' => cases hsame; exact absurd hr' hr
    | literal => cases hsame; exact ⟨rfl, rfl⟩
    | start h => cases hsame; exact absurd h.unsettled_iff.1 hf
    | _ => cases hsame
  | start h hv ih =>
    cases h' with
    | remembered hv' => cases hsame; cases hv'.symm.trans h.unsettled_iff.2.1
    | closed _ hr => cases hsame; exact absurd hr h.unsettled_iff.2.2
    | literal _ _ hf => cases hsame; exact absurd h.unsettled_iff.1 hf
    | start h' hv' =>
      cases hsame
      obtain ⟨-, rfl⟩ := ih h' rfl
      cases Option.some.inj (hv.symm.trans hv')
      exact ⟨rfl, rfl⟩
    | _ => cases hsame

end Spreadsheet.Session
