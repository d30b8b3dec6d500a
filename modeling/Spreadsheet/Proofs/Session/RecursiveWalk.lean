import Spreadsheet.Proofs.Session.OrderIndependence
import Spreadsheet.Proofs.Session.Similarity
import Spreadsheet.Proofs.Session.Stability

/-! # Reading ahead and the plain walk

A session computes the cells that a formula reads in any case before the formula runs. The plain
walk computes them while it runs, so a formula that fails, or that takes a branch, may leave some of
them alone (`readIn_ne_readNested`). How far the two agree is `read_refines_readNested`.

* `Leads`: a formula asks first for what is read ahead, and in that order.
* `Leads.absorbs`: then it makes no difference to it that the cells have been computed ahead.
* `plain_of_asksAheadFirst`: so the plain walk does what the session does, cycles included.
* `plain_of_acyclic`: without cycles, only failures of formulas that are not read get lost. -/

namespace Spreadsheet.Session

open Relation (TransGen)

/-- Among the labels not yet `seen`, those of the first list come first in the second, in order. -/
inductive Leads : (String → Prop) → List String → List String → Prop
  | done {seen asks} : Leads seen [] asks
  | skip {seen l ls asks} (hl : seen l) (h : Leads seen ls asks) : Leads seen (l :: ls) asks
  | pass {seen ls l asks} (hl : seen l) (h : Leads seen ls asks) : Leads seen ls (l :: asks)
  | both {seen l ls asks} (h : Leads (fun m => m = l ∨ seen m) ls asks) :
      Leads seen (l :: ls) (l :: asks)

variable {src : Source} {ahead : String → List String} {value : String → Scalar}
  {s t u s' : State} {key : String}

/-- What is read is what the table says, if what is known in the end is. -/
theorem value_of_read {l : String} {v : Scalar} {q : Inquiry (Except Fault Scalar)}
    {r : Except Fault Scalar} (hread : Does src ahead (.read l v) s t)
    (hrun : Does src ahead (.run q r) t u) (hs : Sound src s)
    (hvalue : u.known.Extends (Inquiry.table value)) : value l = v := by
  obtain ⟨ht, -, hknown⟩ := hread.sound hs
  exact Option.some.inj (hvalue l v ((hrun.sound ht).2.1 l v hknown))

/-- Reading a cell without formula leads to a state that goes on alike. -/
theorem alike_of_read_literal {v : Scalar} {t' : State} (h : Does src ahead (.read key v) s t)
    (hs : Sound src s) (hf : ¬ src.HasFormula key) (ha : Alike src noFlag s t') :
    Alike src noFlag t t' := by
  cases h with
  | remembered => exact ha
  | closed _ hr => exact absurd (hs.running key hr).1 hf
  | literal => exact ha.remember_left hf _
  | start hc => exact absurd hc.unsettled_iff.1 hf

/-- What has been computed ahead makes no difference to a formula that would ask for it first. -/
def Absorbs (src : Source) (ahead : String → List String) (value : String → Scalar)
    (labels : List String) (q : Inquiry (Except Fault Scalar)) (s : State) : Prop :=
  ∀ r t u, Does src ahead (.prefetch labels) s t → Does src ahead (.run q r) t u →
    u.known.Extends (Inquiry.table value) →
      ∃ u', Does src ahead (.run q r) s u' ∧ Alike src noFlag u u'

/-- A formula that asks for a settled cell first may ask for it before what is computed ahead. -/
theorem absorbs_ask_settled (hliteral : ∀ l, ¬ src.HasFormula l → value l = src.literal l)
    {labels : List String} {l : String} {next : Scalar → Inquiry (Except Fault Scalar)}
    (hs : Sound src s) (hl : isSettled src s l = true)
    (h : ∀ s', Sound src s' → (∀ m, isSettled src s m = true → isSettled src s' m = true) →
      Absorbs src ahead value labels (next (value l)) s') :
    Absorbs src ahead value labels (.ask l next) s := by
  intro r t u ht hu hvalue
  have hst := (ht.sound hs).1
  cases hu with
  | @ask _ _ v _ _ t' _ hread hrun =>
    have hv := value_of_read hread hrun hst hvalue
    rw [hv] at h
    cases hm : s.memo[l]? with
    | some w =>
      -- the cell is remembered, before and after
      obtain ⟨he, heq⟩ := hread.det (.remembered (ht.memo_mono hm)) rfl
      cases he
      rw [heq] at hrun
      obtain ⟨u', hu', hau⟩ := h s hs (fun _ => id) r t u ht hrun hvalue
      exact ⟨u', .ask (.remembered hm) hu', hau⟩
    | none =>
      by_cases hr : l ∈ s.running
      · -- a cycle is closed on the cell, before and after
        have hr' : l ∈ t.running := ht.grows.running ▸ hr
        have hm' := memo_none_iff.mpr (hst.running l hr').2
        obtain ⟨he, heq⟩ := hread.det (.closed hm' hr') rfl
        cases he
        subst heq
        obtain ⟨hs', -⟩ := sound_fail hs hm hr
        obtain ⟨t'', ht'', hat⟩ := ht.alike hs hs' (alike_fail hr)
        have hst' := (sound_fail hst hm' hr').1
        obtain ⟨u'', hu'', hau⟩ := hrun.alike hst' (ht''.sound hs').1 hat.fail_left
        have hsu'' := (hu''.sound (ht''.sound hs').1).1
        obtain ⟨u', hu', hau'⟩ := h _ hs' (fun _ => id) r t'' u'' ht'' hu''
          (hau.known_extends hsu'' hliteral hvalue)
        exact ⟨u', .ask (.closed hm hr) hu', hau.trans hau'⟩
      · -- the cell holds no formula
        have hf : ¬ src.HasFormula l := by
          rcases isSettled_iff.mp hl with hf | hmem | hr'
          · exact hf
          · exact absurd hmem (memo_none_iff.mp hm)
          · exact absurd hr' hr
        obtain ⟨hs', -⟩ := sound_remember hs hm hf
        obtain ⟨t'', ht'', hat⟩ := ht.alike hs hs' ((Alike.refl src s).remember_right hf _)
        have hat' : Alike src noFlag t' t'' := alike_of_read_literal hread hst hf hat
        obtain ⟨u'', hu'', hau⟩ :=
          hrun.alike (hread.sound hst).1 (ht''.sound hs').1 hat'
        have hsu'' := (hu''.sound (ht''.sound hs').1).1
        have hsettled : ∀ m, isSettled src s m = true →
            isSettled src (s.remember l (src.literal l)) m = true := fun m hm' =>
          (Does.literal hm hr hf : Does src ahead _ _ _).grows.isSettled hm'
        obtain ⟨u', hu', hau'⟩ := h _ hs' hsettled r t'' u'' ht'' hu''
          (hau.known_extends hsu'' hliteral hvalue)
        have hread' : Does src ahead (.read l v) s (s.remember l (src.literal l)) := by
          rw [← hv, hliteral l hf]
          exact .literal hm hr hf
        exact ⟨u', .ask hread' hu', hau.trans hau'⟩

/-- **A formula absorbs what it asks for first.** -/
theorem Leads.absorbs (hliteral : ∀ l, ¬ src.HasFormula l → value l = src.literal l)
    {seen : String → Prop} {labels asks : List String} (h : Leads seen labels asks) :
    ∀ {q : Inquiry (Except Fault Scalar)} {s : State}, asks = q.readBy value → Sound src s →
      (∀ l, seen l → isSettled src s l = true) → Absorbs src ahead value labels q s := by
  induction h with
  | done =>
    intro q s _ hs _ r t u ht hu _
    cases ht with
    | nothing => exact ⟨u, hu, Alike.refl src u⟩
  | skip hl _ ih =>
    intro q s hq hs hseen r t u ht hu hvalue
    cases ht with
    | skip _ ht => exact ih hq hs hseen r t u ht hu hvalue
    | visit hc => exact absurd (hseen _ hl) (by simp [hc.not_settled])
  | @pass seen ls l asks hl _ ih =>
    intro q s hq hs hseen
    cases q with
    | answer a => cases hq
    | ask m next =>
      obtain ⟨rfl, hq⟩ := List.cons.inj hq
      exact absorbs_ask_settled hliteral hs (hseen l hl) fun s' hs' hsettled =>
        ih hq hs' fun x hx => hsettled x (hseen x hx)
  | @both seen l ls asks _ ih =>
    intro q s hq hs hseen
    cases q with
    | answer a => cases hq
    | ask m next =>
      obtain ⟨rfl, hq⟩ := List.cons.inj hq
      by_cases hl : isSettled src s l = true
      · -- the cell needs no computation, so what is computed ahead is what is left
        have habsorbs : Absorbs src ahead value ls (.ask l next) s :=
          absorbs_ask_settled hliteral hs hl fun s' hs' hsettled => ih hq hs' fun x hx => by
            rcases hx with rfl | hx
            · exact hsettled x hl
            · exact hsettled x (hseen x hx)
        intro r t u ht hu hvalue
        cases ht with
        | skip _ ht => exact habsorbs r t u ht hu hvalue
        | visit hc => simp [hc.not_settled] at hl
      · intro r t u ht hu hvalue
        cases ht with
        | skip hl' => exact absurd hl' hl
        | @visit _ _ _ w _ hc ht =>
          have hsw := (hc.sound hs).1
          obtain ⟨x, hx⟩ := (hc.sound hs).2.2
          cases hu with
          | @ask _ _ v _ _ t' _ hread hrun =>
            have hv := value_of_read hread hrun (ht.sound hsw).1 hvalue
            obtain ⟨he, heq⟩ := hread.det (.remembered (ht.memo_mono hx)) rfl
            cases he
            rw [heq] at hrun
            rw [hv] at hq
            have hseen' : ∀ m, m = l ∨ seen m → isSettled src w m = true := by
              rintro m (rfl | hm)
              · exact isSettled_iff.mpr (Or.inr (Or.inl (mem_of_memo hx)))
              · exact hc.grows.isSettled (hseen m hm)
            obtain ⟨u', hu', hau⟩ := ih hq hsw hseen' r t u ht hrun hvalue
            exact ⟨u', .ask (.start hc hx) hu', hau⟩

/-! ### From reading ahead to the plain walk -/

/-- **What a session does that reads ahead, the plain walk does**, if every formula that it computes
asks first for what is read ahead. -/
theorem Does.plain (hliteral : ∀ l, ¬ src.HasFormula l → value l = src.literal l)
    {good : String → Prop} (hleads : ∀ c, src.HasFormula c → good c →
      Leads (fun l => ¬ src.HasFormula l) (ahead c) ((src.inquiry c).readBy value))
    {task : Task} (h : Does src ahead task s t) (hs : Sound src s) (hs' : Sound src s')
    (ha : Alike src noFlag s s') (hgood : ∀ c ∈ t.memo, good c)
    (hvalue : t.known.Extends (Inquiry.table value)) :
    ∃ t', Does src nothingAhead task s' t' ∧ Alike src noFlag t t' := by
  induction h generalizing s' with
  | nothing => exact ⟨s', .nothing, ha⟩
  | skip hl _ ih =>
    obtain ⟨t', ht', hat⟩ := ih hs hs' ha hgood hvalue
    exact ⟨t', .skip (by rw [ha.isSettled_eq, hl]) ht', hat⟩
  | visit hl h ih ih' =>
    have ht := (hl.sound hs).1
    obtain ⟨t', ht', hat⟩ := ih hs hs' ha (fun c hc => hgood c (h.grows.memo c hc))
      fun l v hv => hvalue l v ((h.sound ht).2.1 l v hv)
    obtain ⟨u', hu', hau⟩ := ih' ht (ht'.sound hs').1 hat hgood hvalue
    exact ⟨u', .visit ht' hu', hau⟩
  | @compute key r s t u hkey hp hq ih ih' =>
    have hkey' : isSettled src s' key = false := by rw [ha.isSettled_eq, hkey]
    obtain ⟨hform, -, hnot⟩ := isSettled_eq_false_iff.mp hkey
    have hm := (sound_mark hs hkey).1
    have hm' := (sound_mark hs' hkey').1
    have ht := (hp.sound hm).1
    obtain ⟨hu, htu, hr⟩ := hq.sound ht
    have hrun : u.running = key :: s.running := hq.grows.running.trans hp.grows.running
    have hvalue' : u.known.Extends (Inquiry.table value) := fun l v hv =>
      hvalue l v ((sound_settle hu hrun hnot hr).2 l v hv)
    have hgood' : ∀ c ∈ u.memo, good c := fun c hc => hgood c <| by
      rw [memo_unmark, memo_settle]
      exact Std.HashMap.mem_insert.mpr (Or.inr hc)
    obtain ⟨t', ht', hat⟩ := ih hm hm' (ha.mark key) (fun c hc => hgood' c (hq.grows.memo c hc))
      fun l v hv => hvalue' l v (htu l v hv)
    obtain ⟨u', hu', hau⟩ := ih' ht (ht'.sound hm').1 hat hgood' hvalue'
    -- the plain walk has computed the cells first; now they are computed while the formula runs
    have hkeygood : good key := hgood key <| by
      rw [memo_unmark, memo_settle]
      exact Std.HashMap.mem_insert_self
    obtain ⟨u'', hu'', hau'⟩ := (hleads key hform hkeygood).absorbs hliteral rfl hm'
      (fun l hl => isSettled_iff.mpr (Or.inl hl)) r t' u' ht' hu'
      (hau.known_extends (hu'.sound (ht'.sound hm').1).1 hliteral hvalue')
    exact ⟨_, .compute hkey' .nothing hu'', (hau.trans hau').settle hrun hnot id r⟩
  | answer => exact ⟨s', .answer, ha⟩
  | ask hl h ih ih' =>
    have ht := (hl.sound hs).1
    obtain ⟨t', ht', hat⟩ := ih hs hs' ha (fun c hc => hgood c (h.grows.memo c hc))
      fun l v hv => hvalue l v ((h.sound ht).2.1 l v hv)
    obtain ⟨u', hu', hau⟩ := ih' ht (ht'.sound hs').1 hat hgood hvalue
    exact ⟨u', .ask ht' hu', hau⟩
  | remembered hv => exact (Does.remembered hv).alike hs hs' ha
  | closed hm hr => exact (Does.closed hm hr).alike hs hs' ha
  | literal hm hr hf => exact (Does.literal hm hr hf).alike hs hs' ha
  | @start key v s t h hv ih =>
    obtain ⟨t', ht', hat⟩ := ih hs hs' ha hgood hvalue
    exact ⟨t', .start ht' ((hat.memo key h.unsettled_iff.1).trans hv), hat⟩

/-- Every formula that has been computed has asked for the cells read ahead before any others, and
in their order. -/
def AsksAheadFirst (src : Source) (s : State) : Prop :=
  ∀ c, Computed src s c →
    Leads (fun l => ¬ src.HasFormula l) (src.ahead c) ((src.inquiry c).asked s.known)

theorem Answers.plain (hliteral : ∀ l, ¬ src.HasFormula l → value l = src.literal l)
    {good : String → Prop} (hleads : ∀ c, src.HasFormula c → good c →
      Leads (fun l => ¬ src.HasFormula l) (ahead c) ((src.inquiry c).readBy value))
    {answers : List (String × Scalar)} (h : Answers src ahead answers s t) (hs : Sound src s)
    (hs' : Sound src s') (ha : Alike src noFlag s s') (hgood : ∀ c ∈ t.memo, good c)
    (hvalue : t.known.Extends (Inquiry.table value)) :
    ∃ t', Answers src nothingAhead answers s' t' ∧ Alike src noFlag t t' := by
  induction h generalizing s' with
  | nil => exact ⟨s', .nil, ha⟩
  | cons h hrest ih =>
    have ht := (h.sound hs).1
    obtain ⟨t', ht', hat⟩ := h.plain hliteral hleads hs hs' ha
      (fun c hc => hgood c (hrest.grows.memo c hc))
      fun l v hv => hvalue l v ((hrest.sound ht).2 l v hv)
    obtain ⟨u', hu', hau⟩ := ih ht (ht'.sound hs').1 hat hgood hvalue
    exact ⟨u', .cons ht' hu', hau⟩

theorem Answers.det {xs ys : List (String × Scalar)} (h : Answers src ahead xs s t)
    (h' : Answers src ahead ys s u) (hkeys : xs.map Prod.fst = ys.map Prod.fst) :
    xs = ys ∧ t = u := by
  induction h generalizing ys with
  | nil =>
    cases h' with
    | nil => exact ⟨rfl, rfl⟩
    | cons => cases hkeys
  | cons h _ ih =>
    cases h' with
    | nil => cases hkeys
    | cons h' hrest' =>
      obtain ⟨hkey, hrest⟩ := List.cons.inj hkeys
      obtain ⟨he, rfl⟩ := h.det h' hkey
      cases he
      obtain ⟨rfl, rfl⟩ := ih hrest' hrest
      exact ⟨rfl, rfl⟩

/-! ### Sequences of reads -/

/-- The values of labels, read one after the other in a new session, and what it leaves. -/
def ReadIn (read : String → Run Scalar) (labels : List String) (vs : List Scalar) (s : State) :
    Prop :=
  Gives (labels.mapM read) {} (.ok vs) s

theorem zipWith_snd {α β : Type} : ∀ {l : List α} {vs : List β}, vs.length = l.length →
    List.zipWith (fun _ v => v) l vs = vs
  | [], [], _ => rfl
  | _ :: _, v :: _, h => congrArg (v :: ·) (zipWith_snd (Nat.succ.inj h))

theorem readIn_answers {read : String → Run Scalar}
    (hread : ∀ label s, ∃ v t, Gives (read label) s (.ok v) t ∧
      Does src ahead (.read (Label.normalize label) v) s t) (labels : List String) :
    ∃ vs t, vs.length = labels.length ∧ ReadIn read labels vs t ∧
      Answers src ahead ((labels.map Label.normalize).zip vs) {} t := by
  obtain ⟨vs, t, hlen, hvs, ht⟩ := gives_mapM (g := fun _ v => v) hread labels {}
  rw [zipWith_snd hlen] at hvs
  exact ⟨vs, t, hlen, hvs, ht⟩

theorem zip_right_injective {α β : Type} {l : List α} {xs ys : List β} (hx : xs.length = l.length)
    (hy : ys.length = l.length) (h : l.zip xs = l.zip ys) : xs = ys := by
  have hmap := congrArg (List.map Prod.snd) h
  rwa [List.map_snd_zip (by omega), List.map_snd_zip (by omega)] at hmap

/-- Over the values found, no computed formula reads its own cell, directly or through others. -/
def ReadsAcyclic (src : Source) (s : State) : Prop :=
  ∀ c, Computed src s c → ¬ TransGen (ReadsIn src s) c c

section

variable {keys : List String} {vs ws : List Scalar}

/-- If every formula asks first for what is read ahead, the plain walk finds the same values and
records the same failures. -/
theorem plain_of_asksAheadFirst (h : Answers src src.ahead (keys.zip vs) {} s)
    (h' : Answers src nothingAhead (keys.zip ws) {} t) (hv : vs.length = keys.length)
    (hw : ws.length = keys.length) (hfirst : AsksAheadFirst src s) :
    ws = vs ∧ ∀ c, t.errors.get? c = s.errors.get? c := by
  have hs := (h.sound (sound_empty src)).1
  have hliteral : ∀ l, ¬ src.HasFormula l → s.valueAt src l = src.literal l := by
    intro l hl
    unfold State.valueAt
    cases hk : s.known l with
    | none => rfl
    | some v => exact hs.literal l v hl (mem_memo_of_known h.grows.running hk)
  have hleads : ∀ c, src.HasFormula c → c ∈ s.memo →
      Leads (fun l => ¬ src.HasFormula l) (src.ahead c)
        ((src.inquiry c).readBy (s.valueAt src)) := by
    intro c hc hm
    obtain ⟨-, r, -, hr, -⟩ := hs.answered ⟨hc, hm⟩
    rw [Inquiry.readBy_of_resolve (known_extends_valueAt s) hr]
    exact hfirst c ⟨hc, hm⟩
  obtain ⟨t', ht', ha⟩ := h.plain hliteral hleads (sound_empty src) (sound_empty src)
    (Alike.refl src {}) (fun _ => id) (known_extends_valueAt s)
  have hkeys : (keys.zip ws).map Prod.fst = (keys.zip vs).map Prod.fst := by
    rw [List.map_fst_zip (by omega), List.map_fst_zip (by omega)]
  obtain ⟨hzip, rfl⟩ := h'.det ht' hkeys
  exact ⟨zip_right_injective hw hv hzip, fun c => ha.errors c id⟩

theorem eq_map_of_zip {f : String → Scalar} (hlen : vs.length = keys.length)
    (h : ∀ x ∈ keys.zip vs, x.2 = f x.1) : vs = keys.map f := by
  have hvs : (keys.zip vs).map Prod.snd = (keys.zip vs).map (f ∘ Prod.fst) :=
    List.map_congr_left h
  rwa [List.map_snd_zip (by omega), ← List.map_map, List.map_fst_zip (by omega)] at hvs

theorem Answers.eq_map_valueAt (h : Answers src ahead (keys.zip vs) {} s)
    (hlen : vs.length = keys.length) : vs = keys.map (s.valueAt src) := by
  refine eq_map_of_zip hlen fun x hx => ?_
  simp [State.valueAt, h.known (sound_empty src) x hx]

theorem Answers.mem_memo (h : Answers src ahead (keys.zip vs) {} s) (hlen : vs.length = keys.length)
    {k : String} (hk : k ∈ keys) : k ∈ s.memo := by
  have hkey : k ∈ (keys.zip vs).map Prod.fst := by rwa [List.map_fst_zip (by omega)]
  obtain ⟨x, hx, rfl⟩ := List.mem_map.mp hkey
  exact mem_of_memo (mem_memo_of_known h.grows.running (h.known (sound_empty src) x hx))

/-- The formulas that are read from the keys on, over what a session has found. -/
inductive ReadFrom (src : Source) (s : State) (keys : List String) : String → Prop
  | key {k} (hk : k ∈ keys) (hf : src.HasFormula k) : ReadFrom src s keys k
  | read {c l} (h : ReadFrom src s keys c) (hl : ReadsIn src s c l) : ReadFrom src s keys l

theorem ReadFrom.hasFormula {c : String} (h : ReadFrom src s keys c) : src.HasFormula c := by
  cases h with
  | key _ hf => exact hf
  | read _ hl => exact hl.1

/-- A session that agrees with what another has found computes what that one has read. -/
theorem ReadFrom.mem_memo {cells : String → Prop} {c : String} (h : ReadFrom src s keys c)
    (hs : Sound src s) (hcells : ∀ c, ReadFrom src s keys c → Computed src s c)
    (ht : Sound src t) (hrun : t.running = []) (ha : Agrees src (s.valueAt src) cells t)
    (hkeys : ∀ k ∈ keys, k ∈ t.memo) : c ∈ t.memo := by
  have htable : t.known.Extends (Inquiry.table (s.valueAt src)) := fun l v hv =>
    congrArg some (ha.memo l v (mem_memo_of_known hrun hv)).1.symm
  induction h with
  | key hk => exact hkeys _ hk
  | @read c l h hl ih =>
    obtain ⟨-, r, -, hr, -⟩ := hs.answered (hcells c h)
    obtain ⟨-, r', -, hr', -⟩ := ht.answered ⟨h.hasFormula, ih⟩
    have hasked : (src.inquiry c).asked t.known = (src.inquiry c).asked s.known := by
      rw [← Inquiry.readBy_of_resolve htable hr',
        ← Inquiry.readBy_of_resolve (known_extends_valueAt s) hr]
    exact (ht.computed_of_readsIn hrun ⟨h.hasFormula, ih⟩ ⟨hl.1, hasked ▸ hl.2⟩).2

/-- If no cycle is left in the session and none in what the formulas have read, the plain walk finds
the same values, and records the failures of the formulas that are read. -/
theorem plain_of_acyclic (h : Answers src src.ahead (keys.zip vs) {} s)
    (h' : Answers src nothingAhead (keys.zip ws) {} t) (hv : vs.length = keys.length)
    (hw : ws.length = keys.length) (hcycle : ∀ c, s.errors.get? c ≠ some .cycle)
    (hacyclic : ReadsAcyclic src s) :
    ws = vs ∧ ∀ c e, t.errors.get? c = some e ↔
      ReadFrom src s keys c ∧ s.errors.get? c = some e := by
  have hs := (h.sound (sound_empty src)).1
  have hrun : s.running = [] := h.grows.running
  have hcomputed : ∀ c, ReadFrom src s keys c → Computed src s c := by
    intro c hc
    induction hc with
    | key hk hf => exact ⟨hf, h.mem_memo hv hk⟩
    | read _ hl ih => exact hs.computed_of_readsIn hrun ih hl
  have hsolves : Solves src nothingAhead (s.valueAt src) (ReadFrom src s keys) := by
    refine (hs.solves hrun hcycle (fun c l _ _ hl => by cases hl) hacyclic).restrict hcomputed ?_
    exact fun c l hc hl =>
      .read hc ((hs.reads_iff (hcomputed c hc) fun _ hl => by cases hl).mp hl)
  obtain ⟨hagrees, hvalues⟩ := h'.agrees hsolves rfl (sound_empty src) (agrees_empty _ _ _)
    fun y hy hform => .key (List.of_mem_zip hy).1 hform
  refine ⟨(eq_map_of_zip hw hvalues).trans (h.eq_map_valueAt hv).symm, fun c e => ?_⟩
  rw [hagrees.errors, (hs.agrees_self hrun hcycle).errors]
  constructor
  · rintro ⟨hform, hm, hf⟩
    obtain ⟨v, hv⟩ := exists_of_mem_memo hm
    have hread := (hagrees.memo c v hv).2 hform
    exact ⟨hread, hform, (hcomputed c hread).2, hf⟩
  · rintro ⟨hread, hform, -, hf⟩
    have hm := hread.mem_memo hs hcomputed (h'.sound (sound_empty src)).1 h'.grows.running hagrees
      fun k => h'.mem_memo hw
    exact ⟨hform, hm, hf⟩

/-- If the plain walk records no failure, reading ahead records none and finds the same values. -/
theorem ahead_of_errorFree (h : Answers src src.ahead (keys.zip vs) {} s)
    (h' : Answers src nothingAhead (keys.zip ws) {} t) (hv : vs.length = keys.length)
    (hw : ws.length = keys.length) (herr : t.errors = []) : ws = vs ∧ s.errors = [] := by
  obtain ⟨hs, -, hvalues⟩ := h'.agrees_errorFree herr h (fun _ => List.Subset.refl _)
    fun y hy _ => h'.mem_memo hw (List.of_mem_zip hy).1
  exact ⟨(h'.eq_map_valueAt hw).trans (eq_map_of_zip hv hvalues).symm, hs⟩

end

/-- **Reading ahead and the plain walk.** Whatever the sheet and the labels, both sessions come to
values. They find the same values and record the same failures if every formula asks first for what
is read ahead. If no cycle is left in the session that reads ahead, nor in what the formulas have
read, they find the same values, and the plain walk records the same failures but for those of
formulas that no formula has asked for. If the plain walk records no failure, reading ahead records
none and finds the same values. -/
theorem read_refines_readNested {sheet : Sheet} (hfit : sheet.NumeralsFit)
    (labels : List String) : ∃ vs s ws t,
      ReadIn (read sheet.source) labels vs s ∧ ReadIn (readNested sheet.source) labels ws t ∧
      (AsksAheadFirst sheet.source s → ws = vs ∧ ∀ c, t.errors.get? c = s.errors.get? c) ∧
      ((∀ c, s.errors.get? c ≠ some .cycle) → ReadsAcyclic sheet.source s →
        ws = vs ∧ ∀ c e, t.errors.get? c = some e ↔
          ReadFrom sheet.source s (labels.map Label.normalize) c ∧ s.errors.get? c = some e) ∧
      (t.errors = [] → ws = vs ∧ s.errors = []) := by
  obtain ⟨vs, s, hv, hvs, h⟩ := readIn_answers (read_does hfit.regular) labels
  obtain ⟨ws, t, hw, hws, h'⟩ := readIn_answers (readNested_does hfit.regular) labels
  have hv' : vs.length = (labels.map Label.normalize).length := by rw [hv, List.length_map]
  have hw' : ws.length = (labels.map Label.normalize).length := by rw [hw, List.length_map]
  exact ⟨vs, s, ws, t, hvs, hws, plain_of_asksAheadFirst h h' hv' hw',
    plain_of_acyclic h h' hv' hw', ahead_of_errorFree h h' hv' hw'⟩

/-- A sheet in which the formula in A1 fails before it asks for B2, whose formula has no tree. -/
def failsFirst : Sheet :=
  .small [("A1", .text "=SUM(A0:A1)+B2"), ("B2", .text "=(")]

theorem failsFirst_fits : failsFirst.NumeralsFit := Sheet.numeralsFit_of_short (by decide)

theorem read_refines_readNested_failsFirst : ∃ vs s ws t,
    ReadIn (read failsFirst.source) ["A1"] vs s ∧
    ReadIn (readNested failsFirst.source) ["A1"] ws t ∧
    (AsksAheadFirst failsFirst.source s → ws = vs ∧ ∀ c, t.errors.get? c = s.errors.get? c) ∧
    ((∀ c, s.errors.get? c ≠ some .cycle) → ReadsAcyclic failsFirst.source s →
      ws = vs ∧ ∀ c e, t.errors.get? c = some e ↔
        ReadFrom failsFirst.source s (["A1"].map Label.normalize) c ∧
          s.errors.get? c = some e) ∧
    (t.errors = [] → ws = vs ∧ s.errors = []) :=
  read_refines_readNested failsFirst_fits ["A1"]

/-! ### A failure of a formula that is not asked for -/

theorem failsFirst_first : failsFirst.source.HasFormula "A1" ∧
    failsFirst.source.ahead "A1" = ["B2"] ∧
    ∃ f, failsFirst.source.inquiry "A1" = .answer (.error f) := by
  obtain ⟨hform, hat⟩ := Sheet.formula_of_mem (s := failsFirst) (l := "A1")
    (t := "=SUM(A0:A1)+B2") (by decide) (by decide) rfl
  have htree : Formula.ofText "=SUM(A0:A1)+B2" =
      .ok (.binary .add (.call "SUM" [.range "A0" "A1"]) (.cell "B2")) := rfl
  refine ⟨hform, ?_, ?_⟩
  · unfold Source.ahead dependencies
    rw [hat, htree]
    simp [Expr.eagerReferences, Expr.collect, Expr.eagerArguments, Reference.addTo, Reference.text]
    rfl
  · unfold Source.inquiry
    rw [hat, Formula.inquiry_of_tree htree]
    exact ⟨_, rfl⟩

theorem failsFirst_second : failsFirst.source.HasFormula "B2" ∧
    ∃ f, failsFirst.source.inquiry "B2" = .answer (.error f) := by
  obtain ⟨hform, hat⟩ := Sheet.formula_of_mem (s := failsFirst) (l := "B2") (t := "=(")
    (by decide) (by decide) rfl
  refine ⟨hform, ?_⟩
  unfold Source.inquiry
  rw [hat]
  exact ⟨_, rfl⟩

/-- A formula that fails without asking for anything is recorded as failed. -/
theorem Does.fails {f : Fault} (h : Does src ahead (.compute key) s t)
    (hq : src.inquiry key = .answer (.error f)) : ∃ u,
      Does src ahead (.prefetch (ahead key)) (s.mark key) u ∧
        t.errors = u.errors.insert key (.fault f) := by
  cases h with
  | @compute _ r _ t u _ hp hrun =>
    rw [hq] at hrun
    cases hrun
    exact ⟨_, hp, rfl⟩

/-- The first cell of a session is computed. -/
theorem Does.computes (h : Does src ahead (.read key v) {} t) (hkey : src.HasFormula key) :
    Does src ahead (.compute key) {} t := by
  cases h with
  | remembered hv => simp at hv
  | closed _ hr => cases hr
  | literal _ _ hf => exact absurd hkey hf
  | start h => exact h

/-- **Reading ahead may record failures that the plain walk does not meet.** -/
theorem readIn_ne_readNested : ¬ ∀ sheet : Sheet, sheet.NumeralsFit → ∀ labels vs s ws t,
    ReadIn (read sheet.source) labels vs s → ReadIn (readNested sheet.source) labels ws t →
      vs = ws ∧ ∀ c, (s.errors.get? c).map CellError.message =
        (t.errors.get? c).map CellError.message := by
  intro hclaim
  obtain ⟨hA, hahead, f, hf⟩ := failsFirst_first
  obtain ⟨hB, g, hg⟩ := failsFirst_second
  have hsrc := failsFirst_fits.regular
  have hA1 : Label.normalize "A1" = "A1" := by decide
  obtain ⟨v, s, hv, h⟩ := read_does hsrc "A1" {}
  obtain ⟨w, t, hw, h'⟩ := readNested_does hsrc "A1" {}
  rw [hA1] at h h'
  have heq := (hclaim failsFirst failsFirst_fits ["A1"] [v] s [w] t
    (hv.bind (gives_pure _ _)) (hw.bind (gives_pure _ _))).2 "B2"
  -- reading ahead computes B2, which fails
  obtain ⟨u, hu, hs⟩ := (h.computes hA).fails hf
  have hB2 : u.errors.get? "B2" = some (.fault g) := by
    rw [hahead] at hu
    cases hu with
    | skip hl => simp [isSettled_iff, hB] at hl
    | visit hl hrest =>
      cases hrest
      obtain ⟨_, -, hu⟩ := hl.fails hg
      rw [hu, OrderedMap.get?_insert_self]
  -- the plain walk never comes to it
  obtain ⟨u', hu', ht⟩ := (h'.computes hA).fails hf
  cases hu'
  rw [hs, ht, OrderedMap.get?_insert_of_ne (by decide), OrderedMap.get?_insert_of_ne (by decide),
    hB2] at heq
  cases heq

end Spreadsheet.Session
