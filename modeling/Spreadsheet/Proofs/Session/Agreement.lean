import Spreadsheet.Proofs.Session.Consistency
import Mathlib.Logic.Relation

/-! # Solutions

A table of values solves the formulas of a set of cells if it gives to each of them what its
formula comes to over the table, and no cell of the set reads itself, directly or through others
(`Solves`). A session that reads cells of the set finds the values of the table, closes no cycle,
and fails where the formulas fail over the table (`Does.agrees`), in whatever order it goes.

* `Sound.solves`: what a session has come to is a solution, if no cycle is left in it. -/

namespace Spreadsheet

namespace Inquiry

variable {α β : Type}

/-- The answer over a table of values. -/
def answerBy (value : String → Scalar) : Inquiry α → α
  | answer a => a
  | ask label next => (next (value label)).answerBy value

/-- The cells asked for over a table of values, in order. -/
def readBy (value : String → Scalar) : Inquiry α → List String
  | answer _ => []
  | ask label next => label :: (next (value label)).readBy value

/-- What is known from a table of values. -/
abbrev table (value : String → Scalar) : Knowledge := fun l => some (value l)

theorem resolve_table (value : String → Scalar) (q : Inquiry α) :
    q.resolve (table value) = some (q.answerBy value) := by
  induction q with
  | answer a => rfl
  | ask label next ih => exact ih (value label)

theorem asked_table (value : String → Scalar) (q : Inquiry α) :
    q.asked (table value) = q.readBy value := by
  induction q with
  | answer a => rfl
  | ask label next ih => exact congrArg (label :: ·) (ih (value label))

theorem answerBy_of_resolve {known : Knowledge} {value : String → Scalar}
    (h : known.Extends (table value)) {q : Inquiry α} {a : α} (hq : q.resolve known = some a) :
    q.answerBy value = a :=
  Option.some.inj ((resolve_table value q).symm.trans (resolve_mono h hq))

theorem readBy_of_resolve {known : Knowledge} {value : String → Scalar}
    (h : known.Extends (table value)) {q : Inquiry α} {a : α} (hq : q.resolve known = some a) :
    q.readBy value = q.asked known :=
  (asked_table value q).symm.trans (asked_of_resolve h hq)

end Inquiry

open Relation (TransGen)

namespace Session

/-- The value of a cell whose formula comes to `r`. -/
def valueOf : Except Fault Scalar → Scalar
  | .ok v => v
  | .error _ => .int 0

/-- Over the table, the cell reads the formula cell `l`, or reads it ahead. -/
def Reads (src : Source) (ahead : String → List String) (value : String → Scalar)
    (c l : String) : Prop :=
  src.HasFormula l ∧ (l ∈ (src.inquiry c).readBy value ∨ l ∈ ahead c)

/-- **A solution** of the formulas of a set of cells. -/
structure Solves (src : Source) (ahead : String → List String) (value : String → Scalar)
    (cells : String → Prop) : Prop where
  literal : ∀ l, ¬ src.HasFormula l → value l = src.literal l
  formula : ∀ c, cells c → value c = valueOf ((src.inquiry c).answerBy value)
  closed : ∀ c l, cells c → Reads src ahead value c l → cells l
  acyclic : ∀ c, cells c → ¬ TransGen (Reads src ahead value) c c

/-- A part of a solution that is closed under reading is a solution. -/
theorem Solves.restrict {src : Source} {ahead : String → List String} {value : String → Scalar}
    {cells part : String → Prop} (h : Solves src ahead value cells)
    (hpart : ∀ c, part c → cells c)
    (hclosed : ∀ c l, part c → Reads src ahead value c l → part l) :
    Solves src ahead value part where
  literal := h.literal
  formula c hc := h.formula c (hpart c hc)
  closed := hclosed
  acyclic c hc := h.acyclic c (hpart c hc)

/-- What a session has found agrees with the solution. -/
structure Agrees (src : Source) (value : String → Scalar) (cells : String → Prop)
    (s : State) : Prop where
  memo : ∀ (l : String) (v : Scalar), s.memo[l]? = some v →
    v = value l ∧ (src.HasFormula l → cells l)
  errors : ∀ c e, s.errors.get? c = some e ↔ src.HasFormula c ∧ c ∈ s.memo ∧
    ∃ f, (src.inquiry c).answerBy value = .error f ∧ e = .fault f

variable {src : Source} {ahead : String → List String} {value : String → Scalar}
  {cells : String → Prop} {s t u : State} {key : String}

/-- A formula cell of the set that all running cells lead to. -/
def Within (src : Source) (ahead : String → List String) (value : String → Scalar)
    (cells : String → Prop) (s : State) (l : String) : Prop :=
  src.HasFormula l → cells l ∧ ∀ p ∈ s.running, TransGen (Reads src ahead value) p l

/-- The task is about cells of the set that all running cells lead to. -/
def Task.Within (src : Source) (ahead : String → List String) (value : String → Scalar)
    (cells : String → Prop) (s : State) : Task → Prop
  | prefetch labels => ∀ l ∈ labels, Session.Within src ahead value cells s l
  | compute key => Session.Within src ahead value cells s key
  | run q _ => ∀ l ∈ q.readBy value, Session.Within src ahead value cells s l
  | read key _ => Session.Within src ahead value cells s key

/-- The task comes to what the table says. -/
def Task.Agrees (value : String → Scalar) : Task → Prop
  | prefetch _ | compute _ => True
  | run q r => r = q.answerBy value
  | read key v => v = value key

theorem Within.of_running_eq {l : String} (h : Within src ahead value cells s l)
    (hrun : t.running = s.running) : Within src ahead value cells t l :=
  fun hl => ⟨(h hl).1, hrun ▸ (h hl).2⟩

theorem Within.mark {l : String} (hcells : Solves src ahead value cells)
    (hkey : src.HasFormula key) (h : Within src ahead value cells s key)
    (hl : l ∈ (src.inquiry key).readBy value ∨ l ∈ ahead key) :
    Within src ahead value cells (s.mark key) l := by
  intro hform
  obtain ⟨hc, hp⟩ := h hkey
  refine ⟨hcells.closed key l hc ⟨hform, hl⟩, ?_⟩
  rintro p (_ | ⟨_, hmem⟩)
  · exact .single ⟨hform, hl⟩
  · exact (hp p hmem).tail ⟨hform, hl⟩

theorem agrees_settle (ha : Agrees src value cells s) (hs : Sound src s)
    (hcells : Solves src ahead value cells) (hrun : key ∈ s.running) (hkey : cells key)
    {r : Except Fault Scalar} (hr : r = (src.inquiry key).answerBy value) :
    Agrees src value cells ((settle key r s).2.unmark key) := by
  obtain ⟨hform, hmemo⟩ := hs.running key hrun
  have hnone : s.errors.contains key = false := Bool.eq_false_iff.mpr fun h => by
    obtain ⟨e, he⟩ := OrderedMap.contains_iff.mp h
    exact hmemo ((ha.errors key e).mp he).2.1
  have hvalue : (settle key r s).1 = value key := by
    rw [hcells.formula key hkey, ← hr]
    cases r with
    | ok v => simp [settle, hnone, valueOf]
    | error f => rfl
  constructor
  · intro l v hv
    rw [memo_unmark, memo_settle, Std.HashMap.getElem?_insert] at hv
    split_ifs at hv with h
    · obtain rfl : key = l := by simpa using h
      exact ⟨(Option.some.inj hv).symm.trans hvalue, fun _ => hkey⟩
    · exact ha.memo l v hv
  · intro c e
    rw [errors_unmark, memo_unmark, memo_settle, Std.HashMap.mem_insert]
    by_cases h : c = key
    · subst h
      have hself : (settle c r s).2.errors.get? c = some e ↔ ∃ f, r = .error f ∧ e = .fault f := by
        cases r with
        | ok v =>
          have : s.errors.get? c = none := by
            rw [← Option.not_isSome_iff_eq_none, Option.isSome_iff_exists,
              ← OrderedMap.contains_iff, hnone]
            simp
          simp [settle, State.remember, this]
        | error f =>
          have : (settle c (.error f) s).2.errors.get? c = some (.fault f) :=
            OrderedMap.get?_insert_self _ _ _
          simp [this, eq_comm]
      rw [hself, ← hr]
      simp [hform]
    · rw [errors_settle_of_ne r h, ha.errors]
      simp [Ne.symm h]

/-- **A session agrees with every solution**, and closes no cycle in it. -/
theorem Does.agrees (hcells : Solves src ahead value cells) {task : Task}
    (h : Does src ahead task s t) (hs : Sound src s) (ha : Agrees src value cells s)
    (hw : task.Within src ahead value cells s) :
    Agrees src value cells t ∧ task.Agrees value := by
  induction h with
  | nothing => exact ⟨ha, trivial⟩
  | skip _ _ ih => exact ih hs ha fun l hl => hw l (List.mem_cons_of_mem _ hl)
  | visit hl _ ih ih' =>
    obtain ⟨ht, -⟩ := ih hs ha (hw _ (by simp))
    refine ih' (hl.sound hs).1 ht fun l hl' => ?_
    exact (hw l (List.mem_cons_of_mem _ hl')).of_running_eq hl.grows.running
  | @compute key r s t u hkey hp hq ih ih' =>
    have hform := (isSettled_eq_false_iff.mp hkey).1
    have hm := (sound_mark hs hkey).1
    obtain ⟨ht, -⟩ := ih hm ⟨ha.memo, ha.errors⟩ fun l hl => Within.mark hcells hform hw (Or.inr hl)
    obtain ⟨hu, hr⟩ := ih' (hp.sound hm).1 ht fun l hl =>
      (Within.mark hcells hform hw (Or.inl hl)).of_running_eq hp.grows.running
    have hrun : u.running = key :: s.running := hq.grows.running.trans hp.grows.running
    refine ⟨agrees_settle hu (hq.sound (hp.sound hm).1).1 hcells ?_ (hw hform).1 hr, trivial⟩
    simp [hrun]
  | answer => exact ⟨ha, rfl⟩
  | @ask l next v r s t u hl _ ih ih' =>
    obtain ⟨ht, hv⟩ := ih hs ha (hw l (by simp [Inquiry.readBy]))
    obtain rfl : v = value l := hv
    refine ih' (hl.sound hs).1 ht fun l' hl' => ?_
    exact (hw l' (by simp [Inquiry.readBy, hl'])).of_running_eq hl.grows.running
  | remembered hv => exact ⟨ha, (ha.memo _ _ hv).1⟩
  | @closed key s _ hr =>
    obtain ⟨hc, hp⟩ := hw (hs.running key hr).1
    exact absurd (hp key hr) (hcells.acyclic key hc)
  | @literal key s hm _ hf =>
    refine ⟨⟨fun l v hv => ?_, fun c e => ?_⟩, (hcells.literal key hf).symm⟩
    · rw [State.remember, Std.HashMap.getElem?_insert] at hv
      split_ifs at hv with h
      · obtain rfl : key = l := by simpa using h
        exact ⟨(Option.some.inj hv).symm.trans (hcells.literal key hf).symm, fun h => absurd h hf⟩
      · exact ha.memo l v hv
    · refine (ha.errors c e).trans (and_congr_right fun hc => and_congr_left fun _ => ?_)
      have hne : ¬ key = c := fun h => hf (h ▸ hc)
      simp [State.remember, hne]
  | @start key v s t h hv ih =>
    obtain ⟨ht, -⟩ := ih hs ha hw
    exact ⟨ht, (ht.memo key v hv).1⟩

/-! ### What a session has come to -/

variable (src) in
/-- The value that a label has after a session: what is known, or what the cell reads as. -/
def State.valueAt (s : State) (l : String) : Scalar :=
  (s.known l).getD (src.literal l)

theorem known_extends_valueAt (s : State) : s.known.Extends (Inquiry.table (s.valueAt src)) := by
  intro l v h
  simp [State.valueAt, h]

/-- The formula cells that a session has computed. -/
def Computed (src : Source) (s : State) (c : String) : Prop :=
  src.HasFormula c ∧ c ∈ s.memo

/-- Over what is known, the formula of `c` reads the formula cell `l`. -/
def ReadsIn (src : Source) (s : State) (c l : String) : Prop :=
  src.HasFormula l ∧ l ∈ (src.inquiry c).asked s.known

theorem mem_memo_of_known {l : String} {v : Scalar} (hrun : s.running = [])
    (h : s.known l = some v) : s.memo[l]? = some v := by
  rcases known_eq_some.mp h with h | ⟨-, -, hl, -⟩
  · exact h
  · simp [hrun] at hl

/-- The formula of a computed cell is answered by what is known. -/
theorem Sound.answered (hs : Sound src s) {c : String} (hc : Computed src s c) : ∃ v r,
    s.memo[c]? = some v ∧ (src.inquiry c).resolve s.known = some r ∧
      Recorded r v (s.errors.get? c) := by
  obtain ⟨v, hv⟩ := exists_of_mem_memo hc.2
  obtain ⟨r, hr, h⟩ := hs.formula c v hc.1 hv
  exact ⟨v, r, hv, hr, h⟩

/-- What a computed cell reads has been computed. -/
theorem Sound.computed_of_readsIn (hs : Sound src s) (hrun : s.running = []) {c l : String}
    (hc : Computed src s c) (h : ReadsIn src s c l) : Computed src s l := by
  obtain ⟨-, r, -, hr, -⟩ := hs.answered hc
  obtain ⟨v, hv⟩ := Inquiry.known_of_mem_asked hr h.2
  exact ⟨h.1, mem_of_memo (mem_memo_of_known hrun hv)⟩

theorem Sound.reads_iff (hs : Sound src s) {c l : String} (hc : Computed src s c)
    (hahead : src.HasFormula l → l ∈ ahead c → l ∈ (src.inquiry c).asked s.known) :
    Reads src ahead (s.valueAt src) c l ↔ ReadsIn src s c l := by
  obtain ⟨-, r, -, hr, -⟩ := hs.answered hc
  rw [Reads, ReadsIn, Inquiry.readBy_of_resolve (known_extends_valueAt s) hr]
  exact and_congr_right fun hl => or_iff_left_of_imp (hahead hl)

theorem Recorded.value_eq {r : Except Fault Scalar} {v : Scalar} {e : Option CellError}
    (h : Recorded r v e) (he : e ≠ some .cycle) : v = valueOf r := by
  rcases e with _ | _ | f
  · exact (congrArg valueOf h).symm
  · exact absurd rfl he
  · exact h.2.trans (congrArg valueOf h.1).symm

/-- **A session that has come to rest without a cycle is a solution** of what it has computed. -/
theorem Sound.solves (hs : Sound src s) (hrun : s.running = [])
    (hcycle : ∀ c, s.errors.get? c ≠ some .cycle)
    (hahead : ∀ c l, Computed src s c → src.HasFormula l → l ∈ ahead c →
      l ∈ (src.inquiry c).asked s.known)
    (hacyclic : ∀ c, Computed src s c → ¬ TransGen (ReadsIn src s) c c) :
    Solves src ahead (s.valueAt src) (Computed src s) := by
  have hreads {c l} (hc : Computed src s c) :
      Reads src ahead (s.valueAt src) c l ↔ ReadsIn src s c l :=
    hs.reads_iff hc (hahead c l hc)
  have hclosed {c l} (hc : Computed src s c) (h : ReadsIn src s c l) : Computed src s l :=
    hs.computed_of_readsIn hrun hc h
  have htrans {c l} (hc : Computed src s c)
      (h : TransGen (Reads src ahead (s.valueAt src)) c l) :
      TransGen (ReadsIn src s) c l ∧ Computed src s l := by
    induction h with
    | single h => exact ⟨.single ((hreads hc).mp h), hclosed hc ((hreads hc).mp h)⟩
    | tail _ h ih =>
      have h' := (hreads ih.2).mp h
      exact ⟨ih.1.tail h', hclosed ih.2 h'⟩
  refine ⟨fun l hl => ?_, fun c hc => ?_, fun c l hc h => hclosed hc ((hreads hc).mp h),
    fun c hc h => hacyclic c hc (htrans hc h).1⟩
  · unfold State.valueAt
    cases h : s.known l with
    | none => rfl
    | some v => exact hs.literal l v hl (mem_memo_of_known hrun h)
  · obtain ⟨v, r, hv, hr, h⟩ := hs.answered hc
    rw [Inquiry.answerBy_of_resolve (known_extends_valueAt s) hr, ← h.value_eq (hcycle c)]
    simp [State.valueAt, known_of_memo hv]

/-- **A fault is recorded of the computed cells whose formulas come to it** over the values of the
session. -/
theorem Sound.fault_iff (hs : Sound src s) (hrun : s.running = []) {c : String} {f : Fault} :
    s.errors.get? c = some (.fault f) ↔
      Computed src s c ∧ (src.inquiry c).answerBy (s.valueAt src) = .error f := by
  constructor
  · intro he
    obtain ⟨hform, hm⟩ := hs.failed c _ he
    have hc : Computed src s c :=
      ⟨hform, mem_of_memo (hm.resolve_right fun h => by simp [hrun] at h)⟩
    obtain ⟨v, r, hv, hr, h⟩ := hs.answered hc
    rw [he] at h
    exact ⟨hc, (Inquiry.answerBy_of_resolve (known_extends_valueAt s) hr).trans h.1⟩
  · rintro ⟨hc, hf⟩
    obtain ⟨v, r, hv, hr, h⟩ := hs.answered hc
    rw [Inquiry.answerBy_of_resolve (known_extends_valueAt s) hr] at hf
    obtain rfl := hf
    rcases he : s.errors.get? c with _ | _ | f' <;> rw [he] at h
    · cases h
    · obtain ⟨⟨v', hv'⟩, -⟩ := h
      cases hv'
    · obtain rfl : f = f' := Except.error.inj h.1
      rfl

/-- A session agrees with what it has come to. -/
theorem Sound.agrees_self (hs : Sound src s) (hrun : s.running = [])
    (hcycle : ∀ c, s.errors.get? c ≠ some .cycle) :
    Agrees src (s.valueAt src) (Computed src s) s := by
  refine ⟨fun l v hv => ⟨?_, fun hl => ⟨hl, mem_of_memo hv⟩⟩, fun c e => ⟨fun he => ?_, ?_⟩⟩
  · simp [State.valueAt, known_of_memo hv]
  · cases e with
    | cycle => exact absurd he (hcycle c)
    | fault f =>
      obtain ⟨hc, hf⟩ := (hs.fault_iff hrun).mp he
      exact ⟨hc.1, hc.2, f, hf, rfl⟩
  · rintro ⟨hc, hm, f, hf, rfl⟩
    exact (hs.fault_iff hrun).mpr ⟨⟨hc, hm⟩, hf⟩

end Session

end Spreadsheet
