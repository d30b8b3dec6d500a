import Spreadsheet.Proofs.Formula.Parsed
import Spreadsheet.Proofs.Session.Execution

/-! # How readings end

Whatever formulas a source holds, and whatever state a session is in, reading a cell comes to an end
within the bounds of `start` and `walk`: it gives a value, or the fault of a numeral that is too
long (`read_ends`). All other faults are taken up by the cells in which they arise.

* `Advances`: what is settled stays settled; so nested computations have fewer formulas to start.
* `walk_ends`: a walk that a fault ends may leave only the cells of its stack unsettled. -/

namespace Spreadsheet.Session

open Label (IsLongNumeral)

/-- What is settled in the first state is so in the second. -/
def Advances (src : Source) (s t : State) : Prop :=
  ∀ l, isSettled src s l = true → isSettled src t l = true

/-- The computation comes to an end, and if that is a fault, it has the property. -/
def Ends (src : Source) (p : Fault → Prop) {α : Type} (x : Run α) (s : State) : Prop :=
  ∃ r t, Gives x s r t ∧ Advances src s t ∧ ∀ f, r = .error f → p f

variable {src : Source} {p : Fault → Prop} {s t u : State} {key : String} {n : Nat}

theorem Advances.refl (src : Source) (s : State) : Advances src s s := fun _ h => h

theorem Advances.trans (h : Advances src s t) (h' : Advances src t u) : Advances src s u :=
  fun l hl => h' l (h l hl)

theorem Advances.fresh_le (h : Advances src s t) (hs : fresh src s ≤ n) : fresh src t ≤ n :=
  (fresh_le_of_settled h).trans hs

section Ends

variable {α β : Type} {x : Run α} {f : α → Run β}

theorem ends_result {r : Except Fault α} (h : ∀ f, r = .error f → p f) (s : State) :
    Ends src p (pureResult r : Run α) s :=
  ⟨r, s, gives_result r s, Advances.refl src s, h⟩

theorem ends_pure (a : α) (s : State) : Ends src p (pure a : Run α) s :=
  ends_result (fun f h => by cases h) s

theorem Ends.bind (hx : Ends src p x s) (hf : ∀ a t, Advances src s t → Ends src p (f a) t) :
    Ends src p (x >>= f) s := by
  obtain ⟨r, t, hr, hst, hp⟩ := hx
  cases r with
  | error g => exact ⟨.error g, t, hr.bind_error, hst, fun g' h => hp g' (by cases h; rfl)⟩
  | ok a =>
    obtain ⟨r', u, hr', htu, hp'⟩ := hf a t hst
    exact ⟨r', u, hr.bind hr', hst.trans htu, hp'⟩

theorem Ends.mapM (hf : ∀ a s, Ends src p (f a) s) : ∀ (l : List α) (s : State),
    Ends src p (l.mapM f) s
  | [], s => ends_pure [] s
  | a :: l, s => by
    rw [List.mapM_cons]
    exact (hf a s).bind fun b t _ => (Ends.mapM hf l t).bind fun bs u _ => ends_pure (b :: bs) u

theorem Ends.mono {p' : Fault → Prop} (h : Ends src p x s) (hp : ∀ f, p f → p' f) :
    Ends src p' x s := by
  obtain ⟨r, t, hr, hst, hpr⟩ := h
  exact ⟨r, t, hr, hst, fun f hf => hp f (hpr f hf)⟩

end Ends

/-! ### Cells that are read ahead -/

theorem expand_fault {f : Fault} : ∀ {rs : List Reference}, expand rs = .error f → IsLongNumeral f
  | [], h => by cases h
  | r :: rs, h => by
    unfold expand at h
    split at h
    · next labels _ =>
      cases hrs : expand rs with
      | ok rest => rw [hrs] at h; cases h
      | error g =>
        rw [hrs] at h
        obtain rfl : g = f := Except.error.inj h
        exact expand_fault hrs
    · exact expand_fault h
    · next g hg hr =>
      obtain rfl : g = f := Except.error.inj h
      cases r with
      | cell label => cases hr
      | range start stop =>
        rcases Label.labels_fault hr with ⟨ref, reason, rfl⟩ | hlong
        · exact absurd rfl (hg ref reason)
        · exact hlong

/-- What a formula reads ahead can be told, unless a numeral in it is too long. -/
theorem dependencies_fault {formula : String} {f : Fault} (h : dependencies formula = .error f) :
    IsLongNumeral f := by
  unfold dependencies at h
  split at h
  · exact expand_fault h
  · cases h
  · next g hg hformula =>
    obtain rfl : g = f := Except.error.inj h
    rcases Formula.ofText_fault hformula with ⟨reason, position, rfl⟩ | hlong
    · exact absurd rfl (hg reason position)
    · exact hlong

/-! ### Formulas -/

variable (src) in
/-- Reading comes to an end while at most `n` formulas are to be started. -/
def ReadingEnds (n : Nat) (read : String → Run Scalar) : Prop :=
  ∀ l s, fresh src s ≤ n → Ends src IsLongNumeral (read l) s

variable (src) in
/-- So does running a formula and settling its cell. -/
def SettlingEnds (n : Nat) (evaluate : String → String → StateM State Scalar) : Prop :=
  ∀ key formula s, fresh src s ≤ n → ∃ r u,
    StateT.run (evaluate key formula) s = settle key r u ∧ Advances src s u

theorem ReadingEnds.runIn {read : String → Run Scalar} (hread : ReadingEnds src n read)
    (q : Inquiry (Except Fault Value)) (hs : fresh src s ≤ n) :
    Ends src (fun _ => True) (q.runIn read) s := by
  induction q generalizing s with
  | answer r => exact ends_result (fun _ _ => trivial) s
  | ask l next ih =>
    refine ((hread l s hs).mono fun _ _ => trivial).bind fun v t hst => ?_
    exact ih v (hst.fresh_le hs)

/-- Whatever a formula comes to, its cell takes it up. -/
theorem ReadingEnds.settling {read : String → Run Scalar} (hread : ReadingEnds src n read) :
    SettlingEnds src n (evaluateCell read) := by
  intro key formula s hs
  obtain ⟨r, t, hr, hst, -⟩ := hread.runIn (Formula.inquiry formula) hs
  refine ⟨cellResult formula r, t, ?_, hst⟩
  unfold evaluateCell
  rw [StateT.run_bind, formulaValue_eq_runIn, hr]
  rfl

/-! ### Walks -/

theorem isSettled_unmark {l : String} (hl : isSettled src s l = true) :
    isSettled src (s.unmark key) l = true ∨ l = key := by
  rw [isSettled_iff] at hl ⊢
  by_cases hkey : l = key
  · exact Or.inr hkey
  · refine Or.inl (hl.imp_right (Or.imp_right fun h => ?_))
    exact List.mem_filter.mpr ⟨h, bne_iff_ne.mpr hkey⟩

theorem isSettled_settle {r : Except Fault Scalar} {l : String} (hl : isSettled src s l = true) :
    isSettled src (settle key r s).2 l = true := by
  rw [isSettled_iff] at hl ⊢
  rw [memo_settle, running_settle]
  exact hl.imp_right (Or.imp_left fun h => Std.HashMap.mem_insert.mpr (Or.inr h))

/-- The cells of a stack above the lowest. -/
def above (stack : List Frame) : List String :=
  stack.dropLast.map Frame.label

theorem above_pending (frame : Frame) (pending : List String) (below : List Frame) :
    above ({ frame with pending } :: below) = above (frame :: below) := by
  cases below <;> rfl

theorem isSettled_unmarkAbove {l : String} {stack : List Frame} (hl : isSettled src s l = true) :
    isSettled src (unmarkAbove stack s) l = true ∨ l ∈ above stack := by
  unfold unmarkAbove above
  generalize stack.dropLast = frames
  induction frames generalizing s with
  | nil => exact Or.inl hl
  | cons frame frames ih =>
    have hone : isSettled src (s.unmark frame.label) l = true ∨ l = frame.label :=
      isSettled_unmark hl
    rcases hone with hl | hl
    · exact (ih hl).imp_right (List.mem_cons_of_mem _)
    · exact Or.inr (hl ▸ List.mem_cons_self)

/-- **A walk comes to an end** within its bound. If that is a fault, only cells above the lowest one
of the stack are unsettled by it. -/
theorem walk_ends (hlisted : ∀ l, src.HasFormula l → l ∈ src.formulas)
    {evaluate : String → String → StateM State Scalar} (heval : SettlingEnds src n evaluate) :
    ∀ (steps : Nat) (frame : Frame) (below : List Frame) (s : State), fresh src s ≤ n →
      2 * fresh src s + (frame :: below).length ≤ steps → ∃ r t,
        Gives (walk src evaluate steps (frame :: below)) s r t ∧
          (∀ l, isSettled src s l = true → isSettled src t l = true ∨ l ∈ above (frame :: below)) ∧
          ∀ f, r = .error f → IsLongNumeral f
  | 0, _, _, _, _, h => by simp at h
  | steps + 1, frame, below, s, hn, h => by
    rw [List.length_cons] at h
    unfold walk
    cases hd : frame.pending.dropWhile (isSettled src s) with
    | nil =>
      cases below with
      | nil =>
        refine ⟨.ok (), s, (gives_get s).bind ?_, fun l => Or.inl, fun f h => by cases h⟩
        rw [hd]
        exact gives_pure () s
      | cons next below =>
        obtain ⟨r, u, he, hsu⟩ := heval frame.label (formulaAt src frame.label) s hn
        have hsv : Advances src s ((settle frame.label r u).2.unmark frame.label) :=
          fun l hl => isSettled_unmark_settle (hsu l hl)
        have hle := fresh_le_of_settled hsv
        obtain ⟨r', t, ht, hsettled, hr'⟩ := walk_ends hlisted heval steps next below _
          (hle.trans hn) (by rw [List.length_cons] at h ⊢; omega)
        refine ⟨r', t, (gives_get s).bind ?_, fun l hl => ?_, hr'⟩
        · rw [hd]
          exact (gives_settle he).bind ((gives_modify _ _).bind ht)
        · exact (hsettled l (hsv l hl)).imp_right (List.mem_cons_of_mem _)
    | cons key pending =>
      have hkey := not_settled_of_dropWhile hd
      have hlt := fresh_mark_lt hkey (hlisted key (isSettled_eq_false_iff.mp hkey).1)
      cases hdeps : dependencies (formulaAt src key) with
      | error f =>
        refine ⟨.error f, unmarkAbove ({ frame with pending } :: below) (s.mark key),
          (gives_get s).bind ?_, fun l hl => ?_, fun g hg => ?_⟩
        · rw [hd]
          refine (gives_modify _ _).bind ?_
          simp only [hdeps]
          exact (gives_modify _ _).bind (gives_result (.error f) _)
        · rw [← above_pending frame pending below]
          exact isSettled_unmarkAbove (isSettled_mark hl)
        · exact dependencies_fault (hdeps.trans (congrArg _ (Except.error.inj hg)))
      | ok labels =>
        obtain ⟨r, t, ht, hsettled, hr⟩ := walk_ends hlisted heval steps ⟨key, labels⟩
          ({ frame with pending } :: below) (s.mark key) (by omega)
          (by simp only [List.length_cons]; omega)
        refine ⟨r, t, (gives_get s).bind ?_, fun l hl => ?_, hr⟩
        · rw [hd]
          refine (gives_modify _ _).bind ?_
          simpa only [hdeps] using ht
        · have hne : l ≠ key := fun h => by simp [h, hkey] at hl
          rw [← above_pending frame pending below]
          refine (hsettled l (isSettled_mark hl)).imp_right fun h => ?_
          exact (List.mem_cons.mp h).resolve_left hne

/-! ### Reading a cell -/

theorem compute_ends (hlisted : ∀ l, src.HasFormula l → l ∈ src.formulas)
    {evaluate : String → String → StateM State Scalar} (heval : SettlingEnds src n evaluate)
    (hkey : isSettled src s key = false) (hs : fresh src s ≤ n + 1) (formula : String) :
    Ends src IsLongNumeral (compute src (walkBound src) evaluate key formula) s := by
  have hlt := fresh_mark_lt hkey (hlisted key (isSettled_eq_false_iff.mp hkey).1)
  have hle : fresh src s ≤ src.formulas.length := List.countP_le_length
  have hcomputed : Ends src IsLongNumeral (do
      prefetch src (walkBound src) evaluate key formula
      evaluate key formula) (s.mark key) := by
    refine Ends.bind (Ends.bind (ends_result (fun f hf => dependencies_fault hf) _)
      fun labels t ht => ?_) fun _ t ht => ?_
    · have hfresh := fresh_le_of_settled ht
      obtain ⟨r, u, hu, hsettled, hr⟩ := walk_ends hlisted heval (2 * src.formulas.length + 1)
        ⟨key, labels⟩ [] t (by omega)
        (by simp only [List.length_cons, List.length_nil]; omega)
      exact ⟨r, u, hu, fun l hl => (hsettled l hl).resolve_right (by simp [above]), hr⟩
    · have hfresh := fresh_le_of_settled ht
      obtain ⟨r, u, he, htu⟩ := heval key formula t (by omega)
      exact ⟨_, _, gives_settle he, fun l hl => isSettled_settle (htu l hl),
        fun f hf => by cases hf⟩
  obtain ⟨r, t, hr, ht, hp⟩ := hcomputed
  refine ⟨r, t.unmark key, gives_compute hr, fun l hl => ?_, hp⟩
  have hne : l ≠ key := fun h => by simp [h, hkey] at hl
  exact (isSettled_unmark (ht l (isSettled_mark hl))).resolve_right hne

theorem look_ends {compute : String → String → Run Scalar}
    (hcompute : ∀ key formula s, isSettled src s key = false → fresh src s ≤ n →
      Ends src IsLongNumeral (compute key formula) s) :
    ReadingEnds src n (look src compute) := by
  intro label s hs
  rcases look_cases src s (Label.normalize label) with
    ⟨v, hv⟩ | ⟨hm, hr⟩ | ⟨hm, hr, hf⟩ | hkey
  · exact ⟨_, s, gives_look_remembered hv, Advances.refl src s, fun f h => by cases h⟩
  · exact ⟨_, _, gives_look_closed hm hr, Advances.refl src s, fun f h => by cases h⟩
  · have hliteral := (Does.literal hm hr hf : Does src src.ahead _ _ _).grows
    exact ⟨_, _, gives_look_literal hm hr hf, fun l => hliteral.isSettled, fun f h => by cases h⟩
  · obtain ⟨r, t, hr, h⟩ := hcompute _ _ s hkey hs
    exact ⟨r, t, gives_look_compute hkey hr, h⟩

theorem readingEnds_start (hlisted : ∀ l, src.HasFormula l → l ∈ src.formulas) :
    ∀ n, ReadingEnds src n (look src (start src n))
  | 0 => look_ends fun key formula s hkey hs => by
    have := fresh_mark_lt hkey (hlisted _ (isSettled_eq_false_iff.mp hkey).1)
    omega
  | n + 1 => look_ends fun key formula s hkey hs =>
    compute_ends hlisted (readingEnds_start hlisted n).settling hkey hs formula

/-- **Reading a cell comes to an end**, and only a numeral that is too long makes it fail. -/
theorem read_ends (hlisted : ∀ l, src.HasFormula l → l ∈ src.formulas) (label : String)
    (s : State) : Ends src IsLongNumeral (read src label) s :=
  readingEnds_start hlisted src.formulas.length label s List.countP_le_length

end Spreadsheet.Session
