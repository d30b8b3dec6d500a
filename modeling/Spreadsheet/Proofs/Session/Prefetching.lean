import Spreadsheet.Proofs.Session.Endings
import Spreadsheet.Proofs.Session.Regular
import Spreadsheet.Session.Prepared

/-! # What is computed ahead

When the formula of a cell is run, all cells that it reads in any case are settled, in every session
over every sheet. On the stack of a walk the label of such a cell is passed over only when the cell
is settled, and what is settled stays so (`Frame.Kept`). So a session that looks for this before it
runs a formula is like any other. Where no reference stands in a branch of `IF`, formulas read
nothing but what they read in any case. So a running formula finds all that it reads settled, and
starts no other.

* `Frame.Kept`: what is known of a cell on the stack of a walk.
* `run_compute_eq`: computing a cell only runs formulas that are prepared.
* `readAlone_eq`: without references in branches of `IF`, running formulas start no others.

Main statement: `read_prepared`. -/

namespace Spreadsheet.Session

variable {src : Source} {s t : State} {key : String} {n : Nat}

/-! ### Computations that agree -/

/-- **The computations come to the same** from the state, and if that is no fault, it has the
property. -/
def Agree {α : Type} (x y : Run α) (s : State) (p : α → State → Prop) : Prop :=
  ∃ r t, Gives x s r t ∧ Gives y s r t ∧ ∀ a, r = .ok a → p a t

section Agree

variable {α β : Type} {x y : Run α} {f g : α → Run β} {p : α → State → Prop}
  {q : β → State → Prop}

theorem Agree.run_eq (h : Agree x y s p) : StateT.run x.run s = StateT.run y.run s := by
  obtain ⟨r, t, hx, hy, -⟩ := h
  exact Eq.trans hx hy.symm

theorem agree_get (s : State) : Agree get get s fun a t => a = s ∧ t = s :=
  ⟨.ok s, s, gives_get s, gives_get s, fun _ h => ⟨(Except.ok.inj h).symm, rfl⟩⟩

theorem agree_modify (g : State → State) (s : State) :
    Agree (modify g : Run Unit) (modify g) s fun _ t => t = g s :=
  ⟨.ok (), g s, gives_modify g s, gives_modify g s, fun _ _ => rfl⟩

theorem agree_result {r : Except Fault α} (hp : ∀ a, r = .ok a → p a s) :
    Agree (pureResult r) (pureResult r) s p :=
  ⟨r, s, gives_result r s, gives_result r s, hp⟩

theorem agree_settle {y y' : StateM State Scalar} {r : Except Fault Scalar} {u : State}
    (h : StateT.run y' s = StateT.run y s) (hy : StateT.run y s = settle key r u) :
    Agree (liftM y' : Run Scalar) (liftM y) s fun _ t => t = (settle key r u).2 :=
  ⟨_, _, gives_settle (h.trans hy), gives_settle hy, fun _ _ => rfl⟩

theorem agree_of_eq {r : Except Fault α} (h : StateT.run x.run s = StateT.run y.run s)
    (hy : Gives y s r t) (hp : ∀ a, r = .ok a → p a t) : Agree x y s p :=
  ⟨r, t, Eq.trans h hy, hy, hp⟩

theorem Agree.bind (h : Agree x y s p) (hf : ∀ a t, p a t → Agree (f a) (g a) t q) :
    Agree (x >>= f) (y >>= g) s q := by
  obtain ⟨r, t, hx, hy, hp⟩ := h
  cases r with
  | error e => exact ⟨.error e, t, hx.bind_error, hy.bind_error, fun b hb => by cases hb⟩
  | ok a =>
    obtain ⟨r', u, hf', hg, hq⟩ := hf a t (hp a rfl)
    exact ⟨r', u, hx.bind hf', hy.bind hg, hq⟩

end Agree

/-- **Readers that agree** on the cells that an inquiry asks for run it alike. They need only agree
in states that are left to no others, as those in which certain cells are settled. -/
theorem agree_runIn {read read' : String → Run Scalar} {asks : String → Prop}
    (inside : State → Prop) (hkept : ∀ s t, Advances src s t → inside s → inside t)
    (hagree : ∀ l s, asks l → inside s → Agree (read' l) (read l) s fun _ t => Advances src s t)
    (q : Inquiry (Except Fault Value)) (hq : q.AsksOnly asks) (hs : inside s) :
    Agree (q.runIn read') (q.runIn read) s fun _ _ => True := by
  induction q generalizing s with
  | answer r => exact ⟨r, s, gives_result r s, gives_result r s, fun _ _ => trivial⟩
  | ask l next ih =>
    obtain ⟨hl, hnext⟩ := hq
    exact (hagree l s hl hs).bind fun v t hst => ih v (hnext v) (hkept s t hst hs)

theorem run_evaluateCell_eq {read read' : String → Run Scalar} {formula : String}
    (h : Agree ((Formula.inquiry formula).runIn read') ((Formula.inquiry formula).runIn read) s
      fun _ _ => True) :
    StateT.run (evaluateCell read' key formula) s =
      StateT.run (evaluateCell read key formula) s := by
  unfold evaluateCell
  rw [StateT.run_bind, StateT.run_bind, formulaValue_eq_runIn, formulaValue_eq_runIn, h.run_eq]

theorem agree_look {first first' : String → String → Run Scalar} {label : String}
    (hread : ReadingEnds src n (look src first)) (hs : fresh src s ≤ n)
    (h : isSettled src s (Label.normalize label) = false →
      StateT.run (first' (Label.normalize label) (formulaAt src (Label.normalize label))).run s =
        StateT.run (first (Label.normalize label) (formulaAt src (Label.normalize label))).run s) :
    Agree (look src first' label) (look src first label) s fun _ t => Advances src s t := by
  obtain ⟨r, t, hr, hst, -⟩ := hread label s hs
  refine agree_of_eq ?_ hr fun _ _ => hst
  rcases look_cases src s (Label.normalize label) with ⟨v, hv⟩ | ⟨hm, hr⟩ | ⟨hm, hr, hf⟩ | hkey
  · exact Eq.trans (gives_look_remembered hv) (gives_look_remembered hv).symm
  · exact Eq.trans (gives_look_closed hm hr) (gives_look_closed hm hr).symm
  · exact Eq.trans (gives_look_literal hm hr hf) (gives_look_literal hm hr hf).symm
  · have hgives : Gives (first (Label.normalize label) (formulaAt src (Label.normalize label))) s
        _ _ := rfl
    have hgives' := Eq.trans (h hkey) hgives
    exact Eq.trans (gives_look_compute hkey hgives') (gives_look_compute hkey hgives).symm

/-! ### Walks -/

theorem isPrepared_iff {formula : String} : isPrepared src s formula = true ↔
    ∃ labels, dependencies formula = .ok labels ∧ ∀ l ∈ labels, isSettled src s l = true := by
  unfold isPrepared
  cases dependencies formula with
  | ok labels => simp
  | error f => simp

/-- **What is known of a cell on the stack** of a walk: its formula reads in any case only cells
that are settled and those that are still to be looked at. -/
structure Frame.Kept (src : Source) (s : State) (frame : Frame) : Prop where
  hasFormula : src.HasFormula frame.label
  covered : ∃ labels, dependencies (formulaAt src frame.label) = .ok labels ∧
    ∀ l ∈ labels, isSettled src s l = true ∨ l ∈ frame.pending

namespace Frame.Kept

variable {frame : Frame}

theorem advance (h : frame.Kept src s) (hst : Advances src s t) : frame.Kept src t := by
  obtain ⟨labels, hlabels, hcovered⟩ := h.covered
  exact ⟨h.hasFormula, labels, hlabels, fun l hl => (hcovered l hl).imp_left (hst l)⟩

/-- A cell with nothing left to be looked at is prepared. -/
theorem prepared (h : frame.Kept src s) (hd : frame.pending.dropWhile (isSettled src s) = []) :
    isPrepared src s (formulaAt src frame.label) = true := by
  obtain ⟨labels, hlabels, hcovered⟩ := h.covered
  refine isPrepared_iff.mpr ⟨labels, hlabels, fun l hl => ?_⟩
  rcases hcovered l hl with hl | hl
  · exact hl
  · exact List.dropWhile_eq_nil_iff.mp hd l hl

/-- A cell that is passed over is settled, and the first that is not gets marked. -/
theorem mark {label : String} {pending : List String} (h : frame.Kept src s)
    (hd : frame.pending.dropWhile (isSettled src s) = label :: pending) :
    { frame with pending }.Kept src (s.mark label) := by
  obtain ⟨labels, hlabels, hcovered⟩ := h.covered
  refine ⟨h.hasFormula, labels, hlabels, fun l hl => ?_⟩
  rcases hcovered l hl with hl | hl
  · exact Or.inl (isSettled_mark hl)
  · rw [← List.takeWhile_append_dropWhile (p := isSettled src s) (l := frame.pending), hd,
      List.mem_append, List.mem_cons] at hl
    rcases hl with hl | rfl | hl
    · exact Or.inl (isSettled_mark (List.mem_takeWhile_imp hl))
    · exact Or.inl (isSettled_iff.mpr (Or.inr (Or.inr List.mem_cons_self)))
    · exact Or.inr hl

end Frame.Kept

/-- The lowest cell of a stack. -/
def lowest (frame : Frame) (below : List Frame) : String :=
  (below.getLast?.getD frame).label

theorem lowest_pop (frame next : Frame) (below : List Frame) :
    lowest frame (next :: below) = lowest next below := by
  rw [lowest, List.getLast?_cons, Option.getD_some, lowest]

theorem lowest_push (top frame : Frame) (pending : List String) (below : List Frame) :
    lowest top ({ frame with pending } :: below) = lowest frame below := by
  rw [lowest_pop, lowest, lowest]
  cases below.getLast? <;> rfl

variable (src) in
/-- Formulas that are prepared are run alike. -/
def RunAlike (n : Nat) (evaluate' evaluate : String → String → StateM State Scalar) : Prop :=
  ∀ key s, src.HasFormula key → fresh src s ≤ n → isPrepared src s (formulaAt src key) = true →
    StateT.run (evaluate' key (formulaAt src key)) s =
      StateT.run (evaluate key (formulaAt src key)) s

section

variable {evaluate evaluate' : String → String → StateM State Scalar}

/-- **A walk only runs formulas that are prepared**, and when it ends, that of the lowest cell is
prepared, too. -/
theorem agree_walk (heval : SettlingEnds src n evaluate)
    (halike : RunAlike src n evaluate' evaluate) :
    ∀ (steps : Nat) (frame : Frame) (below : List Frame) (s : State),
      (∀ f ∈ frame :: below, f.Kept src s) → fresh src s ≤ n →
      Agree (walk src evaluate' steps (frame :: below)) (walk src evaluate steps (frame :: below)) s
        fun _ t => fresh src t ≤ n ∧ isPrepared src t (formulaAt src (lowest frame below)) = true
  | 0, _, _, _, _, _ => agree_result fun _ h => by cases h
  | steps + 1, frame, below, s, hkept, hs => by
    obtain ⟨hframe, hbelow⟩ := List.forall_mem_cons.mp hkept
    unfold walk
    refine (agree_get s).bind fun _ _ h => ?_
    rw [h.1, h.2]
    cases hd : frame.pending.dropWhile (isSettled src s) with
    | nil =>
      have hprepared := hframe.prepared hd
      cases below with
      | nil => exact agree_result (r := .ok ()) fun _ _ => ⟨hs, hprepared⟩
      | cons next below =>
        obtain ⟨r, u, he, hsu⟩ := heval frame.label (formulaAt src frame.label) s hs
        have hadvances : Advances src s ((settle frame.label r u).2.unmark frame.label) :=
          fun l hl => isSettled_unmark_settle (hsu l hl)
        refine (agree_settle (halike frame.label s hframe.hasFormula hs hprepared) he).bind ?_
        rintro _ _ rfl
        refine (agree_modify _ _).bind ?_
        rintro _ _ rfl
        rw [lowest_pop]
        exact agree_walk heval halike steps next below _
          (fun f hf => (hbelow f hf).advance hadvances) (hadvances.fresh_le hs)
    | cons label pending =>
      have hkey := not_settled_of_dropWhile hd
      refine (agree_modify _ _).bind ?_
      rintro _ _ rfl
      dsimp only
      cases hlabels : dependencies (formulaAt src label) with
      | error f =>
        refine (agree_modify _ _).bind fun _ _ _ => ?_
        exact agree_result (r := .error f) fun _ h => by cases h
      | ok labels =>
        have hmarked : Advances src s (s.mark label) := fun _ => isSettled_mark
        rw [← lowest_push ⟨label, labels⟩ frame pending below]
        refine agree_walk heval halike steps ⟨label, labels⟩ ({ frame with pending } :: below) _
          ?_ (hmarked.fresh_le hs)
        refine List.forall_mem_cons.mpr ⟨?_, List.forall_mem_cons.mpr ⟨hframe.mark hd, ?_⟩⟩
        · exact ⟨(isSettled_eq_false_iff.mp hkey).1, labels, hlabels, fun _ => Or.inr⟩
        · exact fun f hf => (hbelow f hf).advance hmarked

/-- **Computing a cell only runs formulas that are prepared.** -/
theorem run_compute_eq (hlisted : ∀ l, src.HasFormula l → l ∈ src.formulas)
    (heval : SettlingEnds src n evaluate) (halike : RunAlike src n evaluate' evaluate)
    (hkey : isSettled src s key = false) (hs : fresh src s ≤ n + 1) :
    StateT.run (compute src (walkBound src) evaluate' key (formulaAt src key)).run s =
      StateT.run (compute src (walkBound src) evaluate key (formulaAt src key)).run s := by
  have hform := (isSettled_eq_false_iff.mp hkey).1
  have hlt := fresh_mark_lt hkey (hlisted key hform)
  have hprefetch : Agree (prefetch src (walkBound src) evaluate' key (formulaAt src key))
      (prefetch src (walkBound src) evaluate key (formulaAt src key)) (s.mark key)
      fun _ t => fresh src t ≤ n ∧ isPrepared src t (formulaAt src key) = true := by
    unfold prefetch
    refine (agree_result (p := fun labels t => dependencies (formulaAt src key) = .ok labels ∧
      t = s.mark key) fun labels h => ⟨h, rfl⟩).bind ?_
    rintro labels _ ⟨hlabels, rfl⟩
    have hframe : Frame.Kept src (s.mark key) ⟨key, labels⟩ :=
      ⟨hform, labels, hlabels, fun _ => Or.inr⟩
    exact agree_walk heval halike _ ⟨key, labels⟩ [] _ (List.forall_mem_singleton.mpr hframe)
      (by omega)
  have hcomputed : Agree
      (do
        prefetch src (walkBound src) evaluate' key (formulaAt src key)
        evaluate' key (formulaAt src key) : Run Scalar)
      (do
        prefetch src (walkBound src) evaluate key (formulaAt src key)
        evaluate key (formulaAt src key))
      (s.mark key) fun _ _ => True := by
    refine hprefetch.bind fun _ t ⟨ht, hprepared⟩ => ?_
    obtain ⟨r, u, he, -⟩ := heval key (formulaAt src key) t ht
    obtain ⟨r', w, hx, hy, -⟩ := agree_settle (halike key t hform ht hprepared) he
    exact ⟨r', w, hx, hy, fun _ _ => trivial⟩
  unfold compute
  rw [ExceptT.run_mk, ExceptT.run_mk, StateT.run_bind, StateT.run_bind, StateT.run_modify]
  show StateT.run (ExceptT.run _ >>= _) (s.mark key) = StateT.run (ExceptT.run _ >>= _) (s.mark key)
  rw [StateT.run_bind, StateT.run_bind, hcomputed.run_eq]

end

/-! ### Reading cells -/

theorem asksOnly_true {α : Type} : ∀ q : Inquiry α, q.AsksOnly fun _ => True
  | .answer _ => trivial
  | .ask _ next => ⟨trivial, fun v => asksOnly_true (next v)⟩

/-- **All formulas that are run are prepared**, those that running ones start as well. -/
theorem agree_startPrepared (hlisted : ∀ l, src.HasFormula l → l ∈ src.formulas)
    (other : String → String → StateM State Scalar) : ∀ (n : Nat) (label : String) (s : State),
      fresh src s ≤ n → Agree (look src (startPrepared src other n) label)
        (look src (start src n) label) s fun _ t => Advances src s t
  | 0, label, s, hs => agree_look (readingEnds_start hlisted 0) hs fun _ => rfl
  | n + 1, label, s, hs => by
    have hread := readingEnds_start hlisted n
    refine agree_look (readingEnds_start hlisted (n + 1)) hs fun hkey => ?_
    rw [start_succ]
    refine run_compute_eq hlisted hread.settling (fun key t _ ht hprepared => ?_) hkey hs
    have hguard : StateT.run (whenPrepared src other
          (evaluateCell (look src (startPrepared src other n))) key (formulaAt src key)) t =
        StateT.run (evaluateCell (look src (startPrepared src other n)) key
          (formulaAt src key)) t := by
      unfold whenPrepared
      rw [StateT.run_bind, StateT.run_get]
      show StateT.run (if isPrepared src t (formulaAt src key) = true then _ else _) t = _
      rw [if_pos hprepared]
    have hkept : ∀ t u, Advances src t u → fresh src t ≤ n → fresh src u ≤ n :=
      fun _ _ => Advances.fresh_le
    refine hguard.trans (run_evaluateCell_eq (agree_runIn _ hkept ?_ _ (asksOnly_true _) ht))
    exact fun l t _ ht => agree_startPrepared hlisted other n l t ht

/-- **A session that looks whether formulas are prepared** before it runs them is like any other. -/
theorem readPrepared_eq (hlisted : ∀ l, src.HasFormula l → l ∈ src.formulas)
    (other : String → String → StateM State Scalar) : readPrepared src other = read src := by
  funext label
  refine ExceptT.ext (StateT.ext fun s => ?_)
  exact (agree_startPrepared hlisted other src.formulas.length label s List.countP_le_length).run_eq

variable (src) in
/-- No formula has a reference in a branch of `IF`. -/
def Unbranched : Prop :=
  ∀ key e, src.HasFormula key → Formula.ofText (formulaAt src key) = .ok e → e.Unbranched

/-- Without references in branches a formula asks only for what it reads in any case. -/
theorem asksOnly_dependencies {formula : String} {labels : List String}
    (hbranches : ∀ e, Formula.ofText formula = .ok e → e.Unbranched)
    (hlabels : dependencies formula = .ok labels) :
    (Formula.inquiry formula).AsksOnly fun l => l ∈ labels ∧ Label.normalize l = l := by
  cases he : Formula.ofText formula with
  | error f =>
    rw [Formula.inquiry_of_fault he]
    trivial
  | ok e =>
    rw [Formula.inquiry_of_tree he]
    have hplain := Formula.plainCells_of_ofText he
    have hexpand : expand e.eagerReferences = .ok labels := by
      unfold dependencies at hlabels
      rwa [he] at hlabels
    refine Expr.asksOnly_evaluate e fun r hr l hl => ⟨?_, (hplain.plain_of_covers hr hl).normalize⟩
    obtain ⟨r', hr', hl'⟩ := hplain.covers_references hr hl
    rw [(hbranches e he).eagerReferences_eq] at hexpand
    exact mem_of_expand hexpand hr' hl'

/-- **A running formula starts no other** if no reference stands in a branch. -/
theorem readAlone_eq (hlisted : ∀ l, src.HasFormula l → l ∈ src.formulas)
    (hbranches : Unbranched src) (other : String → String → Run Scalar) :
    readAlone src other = read src := by
  funext label
  refine ExceptT.ext (StateT.ext fun s => ?_)
  have hread := readingEnds_start hlisted src.formulas.length
  refine (agree_look hread List.countP_le_length fun hkey => ?_).run_eq
  have hmem := hlisted _ (isSettled_eq_false_iff.mp hkey).1
  have hs : fresh src s ≤ src.formulas.length := List.countP_le_length
  obtain ⟨n, hn⟩ := Nat.exists_eq_succ_of_ne_zero (List.length_pos_of_mem hmem).ne'
  rw [hn] at hs ⊢
  rw [start_succ]
  have hread := readingEnds_start hlisted n
  refine run_compute_eq hlisted hread.settling (fun key t hform ht hprepared => ?_) hkey hs
  obtain ⟨labels, hlabels, hsettled⟩ := isPrepared_iff.mp hprepared
  have hasks := asksOnly_dependencies (fun e => hbranches key e hform) hlabels
  -- what the formula asks for is settled when it starts, and stays so
  have hkept : ∀ t u, Advances src t u →
      (fresh src t ≤ n ∧ ∀ l ∈ labels, isSettled src t l = true) →
        fresh src u ≤ n ∧ ∀ l ∈ labels, isSettled src u l = true := by
    rintro t u htu ⟨ht, hsettled⟩
    exact ⟨htu.fresh_le ht, fun l hl => htu l (hsettled l hl)⟩
  refine run_evaluateCell_eq (agree_runIn _ hkept ?_ _ hasks ⟨ht, hsettled⟩)
  rintro l t ⟨hl, hnormal⟩ ⟨ht, hsettled⟩
  refine agree_look hread ht fun hkey => ?_
  rw [hnormal, hsettled l hl] at hkey
  cases hkey

/-- **What is read in any case is computed ahead.** A session over any sheet, in whatever state, is
like one that does something other where it is about to run a formula and a cell that the formula
reads in any case holds a formula and is neither known nor running. If no formula of the sheet has a
reference in a branch of `IF`, it is like one in which running formulas start no others. -/
theorem read_prepared (sheet : Sheet) :
    (∀ other, readPrepared sheet.source other = read sheet.source) ∧
      (Unbranched sheet.source → ∀ other, readAlone sheet.source other = read sheet.source) :=
  ⟨readPrepared_eq fun _ => Sheet.mem_formulas_of_hasFormula,
    readAlone_eq fun _ => Sheet.mem_formulas_of_hasFormula⟩

/-- A formula with `IF` and a formula that its condition reads. -/
def conditioned : Sheet :=
  .small [("A1", .text "=IF(B1,1,2)"), ("B1", .text "=C1+1")]

theorem conditioned_unbranched : Unbranched conditioned.source := by
  obtain ⟨-, hA⟩ := Sheet.formula_of_mem (s := conditioned) (l := "A1") (t := "=IF(B1,1,2)")
    (by decide) (by decide) rfl
  obtain ⟨-, hB⟩ := Sheet.formula_of_mem (s := conditioned) (l := "B1") (t := "=C1+1")
    (by decide) (by decide) rfl
  have htreeA : Formula.ofText "=IF(B1,1,2)" =
      .ok (.call "IF" [.cell "B1", .literal (.int 1), .literal (.int 2)]) := rfl
  have htreeB : Formula.ofText "=C1+1" = .ok (.binary .add (.cell "C1") (.literal (.int 1))) := rfl
  intro key e hkey he
  have hmem : key ∈ ["A1", "B1"] := Sheet.mem_formulas_of_hasFormula hkey
  rcases List.mem_pair.mp hmem with rfl | rfl
  · rw [hA, htreeA] at he
    obtain rfl := Except.ok.inj he
    refine .call ?_ fun _ => ?_
    · simpa using ⟨Expr.Unbranched.cell, .literal, .literal⟩
    · simp [Expr.mentions, Expr.occurrences]
  · rw [hB, htreeB] at he
    obtain rfl := Except.ok.inj he
    exact .binary .cell .literal

theorem read_prepared_conditioned :
    Unbranched conditioned.source ∧
      (∀ other, readPrepared conditioned.source other = read conditioned.source) ∧
        ∀ other, readAlone conditioned.source other = read conditioned.source :=
  ⟨conditioned_unbranched, (read_prepared conditioned).1,
    (read_prepared conditioned).2 conditioned_unbranched⟩

end Spreadsheet.Session
