import Spreadsheet.Proofs.Session.Endings

/-! # What a session does on any sheet

The relation `Does` tells what a session does as long as nothing ends it. On sheets with numerals
that are too long a computation may end with a fault, which leaves what has been found and may leave
a mark; a formula that meets such a fault takes it for its own. `Performs` tells all this, and which
formulas have been run, in order. It knows no bounds.

* `Performs.advances`: what is settled stays settled.
* `Performs.det`: an errand has one result, and leads to one state. -/

namespace Spreadsheet

/-- The formula of the cell has a numeral that keeps what it reads ahead from being told. -/
def Source.Stuck (src : Source) (label : String) : Prop :=
  ∃ f, Session.dependencies (Session.formulaAt src label) = .error f

namespace Session

/-! ### The relation -/

/-- What a session can be about, and what that comes to: to compute the cells among `labels` that
need it, to compute a cell, to run an inquiry, and to read a cell. -/
inductive Errand where
  | prefetch (labels : List String) (r : Except Fault Unit)
  | compute (key : String) (r : Except Fault Unit)
  | run (q : Inquiry (Except Fault Scalar)) (r : Except Fault Scalar)
  | read (key : String) (r : Except Fault Scalar)

/-- **What a session does**, whatever the formulas are; the list holds the cells whose formulas it
runs. -/
inductive Performs (src : Source) : Errand → State → List String → State → Prop
  | nothing {s} : Performs src (.prefetch [] (.ok ())) s [] s
  | skip {l ls r s ran t} (hl : isSettled src s l = true)
      (h : Performs src (.prefetch ls r) s ran t) : Performs src (.prefetch (l :: ls) r) s ran t
  | visit {l ls r s ran t ran' u} (hl : Performs src (.compute l (.ok ())) s ran t)
      (h : Performs src (.prefetch ls r) t ran' u) :
      Performs src (.prefetch (l :: ls) r) s (ran ++ ran') u
  | broken {l ls f s ran t} (h : Performs src (.compute l (.error f)) s ran t) :
      Performs src (.prefetch (l :: ls) (.error f)) s ran t
  /-- The cell has been marked when its dependencies turn out to be untold. -/
  | stuck {l ls f s} (hl : isSettled src s l = false)
      (hf : dependencies (formulaAt src l) = .error f) :
      Performs src (.prefetch (l :: ls) (.error f)) s [] (s.mark l)
  | compute {key labels r s ran t ran' u} (hkey : isSettled src s key = false)
      (hlabels : dependencies (formulaAt src key) = .ok labels)
      (ht : Performs src (.prefetch labels (.ok ())) (s.mark key) ran t)
      (hu : Performs src (.run (src.inquiry key) r) t ran' u) :
      Performs src (.compute key (.ok ())) s (ran ++ key :: ran') ((settle key r u).2.unmark key)
  | givesUp {key labels f s ran t} (hkey : isSettled src s key = false)
      (hlabels : dependencies (formulaAt src key) = .ok labels)
      (ht : Performs src (.prefetch labels (.error f)) (s.mark key) ran t) :
      Performs src (.compute key (.error f)) s ran (t.unmark key)
  | answer {r s} : Performs src (.run (.answer r) r) s [] s
  | ask {l next v r s ran t ran' u} (hl : Performs src (.read (Label.normalize l) (.ok v)) s ran t)
      (h : Performs src (.run (next v) r) t ran' u) :
      Performs src (.run (.ask l next) r) s (ran ++ ran') u
  | askFails {l next f s ran t} (h : Performs src (.read (Label.normalize l) (.error f)) s ran t) :
      Performs src (.run (.ask l next) (.error f)) s ran t
  | remembered {key v s} (hv : s.memo[key]? = some v) : Performs src (.read key (.ok v)) s [] s
  | closed {key s} (hm : s.memo[key]? = none) (hr : key ∈ s.running) :
      Performs src (.read key (.ok (.int 0))) s [] (s.fail key .cycle)
  | literal {key s} (hm : s.memo[key]? = none) (hr : key ∉ s.running)
      (hf : ¬ src.HasFormula key) :
      Performs src (.read key (.ok (src.literal key))) s [] (s.remember key (src.literal key))
  | start {key v s ran t} (h : Performs src (.compute key (.ok ())) s ran t)
      (hv : t.memo[key]? = some v) : Performs src (.read key (.ok v)) s ran t
  | startFails {key f s ran t} (h : Performs src (.compute key (.error f)) s ran t) :
      Performs src (.read key (.error f)) s ran t
  | startStuck {key f s} (hkey : isSettled src s key = false)
      (hf : dependencies (formulaAt src key) = .error f) :
      Performs src (.read key (.error f)) s [] s

variable {src : Source} {s t u : State} {key : String} {ran : List String}

theorem Advances.unmark (h : Advances src (s.mark key) t) (hkey : isSettled src s key = false) :
    Advances src s (t.unmark key) := by
  intro l hl
  have hne : l ≠ key := fun h => by simp [h, hkey] at hl
  exact (isSettled_unmark (h l (isSettled_mark hl))).resolve_right hne

theorem advances_mark (key : String) : Advances src s (s.mark key) := fun _ => isSettled_mark

theorem advances_settle (key : String) (r : Except Fault Scalar) :
    Advances src s (settle key r s).2 := fun _ => isSettled_settle

/-- **What is settled stays settled**, also where a computation ends with a fault. -/
theorem Performs.advances {errand : Errand} (h : Performs src errand s ran t) :
    Advances src s t := by
  induction h with
  | nothing | answer | remembered | closed | startStuck => exact Advances.refl src _
  | skip _ _ ih | broken _ ih | askFails _ ih | start _ _ ih | startFails _ ih => exact ih
  | visit _ _ ih ih' | ask _ _ ih ih' => exact ih.trans ih'
  | stuck => exact advances_mark _
  | compute hkey _ _ _ ih ih' => exact ((ih.trans ih').trans (advances_settle _ _)).unmark hkey
  | givesUp hkey _ _ ih => exact ih.unmark hkey
  | literal hm hr hf =>
    have hgrows := (Does.literal hm hr hf : Does src src.ahead _ _ _).grows
    exact fun l => hgrows.isSettled

/-! ### No choice -/

/-- The same errand, with results that may differ. -/
def Errand.Same : Errand → Errand → Prop
  | prefetch labels _, prefetch labels' _ => labels = labels'
  | compute key _, compute key' _ => key = key'
  | run q _, run q' _ => q = q'
  | read key _, read key' _ => key = key'
  | _, _ => False

theorem Performs.not_settled {r : Except Fault Unit} (h : Performs src (.compute key r) s ran t) :
    isSettled src s key = false := by
  cases h with
  | compute hkey | givesUp hkey => exact hkey

/-- Only a cell whose dependencies can be told is computed. -/
theorem Performs.not_stuck {r : Except Fault Unit} (h : Performs src (.compute key r) s ran t)
    {f : Fault} : dependencies (formulaAt src key) ≠ .error f := by
  intro hf
  cases h with
  | compute _ hlabels | givesUp _ hlabels => cases hf.symm.trans hlabels

theorem Errand.Same.read {errand : Errand} {r : Except Fault Scalar}
    (h : (Errand.read key r).Same errand) : ∃ r', errand = .read key r' := by
  cases errand with
  | read key' r' => exact ⟨r', by rw [show key = key' from h]⟩
  | _ => cases h

/-- To read a cell that needs it is to compute it, if its dependencies can be told. -/
theorem Performs.read_unsettled {r : Except Fault Scalar} (h : Performs src (.read key r) s ran t)
    (hkey : isSettled src s key = false) :
    (∃ v, r = .ok v ∧ Performs src (.compute key (.ok ())) s ran t ∧ t.memo[key]? = some v) ∨
      (∃ f, r = .error f ∧ Performs src (.compute key (.error f)) s ran t) ∨
      ∃ f, r = .error f ∧ dependencies (formulaAt src key) = .error f ∧ ran = [] ∧ t = s := by
  obtain ⟨hf, hm, hr⟩ := isSettled_eq_false_iff.mp hkey
  cases h with
  | remembered hv => exact absurd (mem_of_memo hv) hm
  | closed _ hr' => exact absurd hr' hr
  | literal _ _ hf' => exact absurd hf hf'
  | start h hv => exact Or.inl ⟨_, rfl, h, hv⟩
  | startFails h => exact Or.inr (Or.inl ⟨_, rfl, h⟩)
  | startStuck _ hdeps => exact Or.inr (Or.inr ⟨_, rfl, hdeps, rfl, rfl⟩)

/-- **A session has no choice**: an errand has one result, runs the same formulas and leads to one
state. -/
theorem Performs.det {errand errand' : Errand} {ran' : List String} {t' : State}
    (h : Performs src errand s ran t) (h' : Performs src errand' s ran' t')
    (hsame : errand.Same errand') : errand = errand' ∧ ran = ran' ∧ t = t' := by
  induction h generalizing errand' ran' t' with
  | nothing =>
    cases h' <;> cases hsame
    exact ⟨rfl, rfl, rfl⟩
  | skip hl _ ih =>
    cases h' with
    | skip _ h' =>
      cases hsame
      obtain ⟨he, rfl, rfl⟩ := ih h' rfl
      cases he
      exact ⟨rfl, rfl, rfl⟩
    | visit h' | broken h' => cases hsame; simp [h'.not_settled] at hl
    | stuck hl' => cases hsame; simp [hl'] at hl
    | _ => cases hsame
  | visit hl _ ih ih' =>
    cases h' with
    | skip hl' => cases hsame; simp [hl.not_settled] at hl'
    | visit hl' h' =>
      cases hsame
      obtain ⟨-, rfl, rfl⟩ := ih hl' rfl
      obtain ⟨he, rfl, rfl⟩ := ih' h' rfl
      cases he
      exact ⟨rfl, rfl, rfl⟩
    | broken hl' => cases hsame; cases (ih hl' rfl).1
    | stuck _ hf => cases hsame; exact absurd hf hl.not_stuck
    | _ => cases hsame
  | broken hl ih =>
    cases h' with
    | skip hl' => cases hsame; simp [hl.not_settled] at hl'
    | visit hl' => cases hsame; cases (ih hl' rfl).1
    | broken hl' =>
      cases hsame
      obtain ⟨he, rfl, rfl⟩ := ih hl' rfl
      cases he
      exact ⟨rfl, rfl, rfl⟩
    | stuck _ hf => cases hsame; exact absurd hf hl.not_stuck
    | _ => cases hsame
  | stuck hl hf =>
    cases h' with
    | skip hl' => cases hsame; simp [hl] at hl'
    | visit hl' | broken hl' => cases hsame; exact absurd hf hl'.not_stuck
    | stuck _ hf' =>
      cases hsame
      cases Except.error.inj (hf.symm.trans hf')
      exact ⟨rfl, rfl, rfl⟩
    | _ => cases hsame
  | compute _ hlabels _ _ ih ih' =>
    cases h' with
    | compute _ hlabels' ht hu =>
      cases hsame
      cases Except.ok.inj (hlabels.symm.trans hlabels')
      obtain ⟨-, rfl, rfl⟩ := ih ht rfl
      obtain ⟨he, rfl, rfl⟩ := ih' hu rfl
      cases he
      exact ⟨rfl, rfl, rfl⟩
    | givesUp _ hlabels' ht =>
      cases hsame
      cases Except.ok.inj (hlabels.symm.trans hlabels')
      cases (ih ht rfl).1
    | _ => cases hsame
  | givesUp _ hlabels _ ih =>
    cases h' with
    | compute _ hlabels' ht =>
      cases hsame
      cases Except.ok.inj (hlabels.symm.trans hlabels')
      cases (ih ht rfl).1
    | givesUp _ hlabels' ht =>
      cases hsame
      cases Except.ok.inj (hlabels.symm.trans hlabels')
      obtain ⟨he, rfl, rfl⟩ := ih ht rfl
      cases he
      exact ⟨rfl, rfl, rfl⟩
    | _ => cases hsame
  | answer =>
    cases h' with
    | answer => cases hsame; exact ⟨rfl, rfl, rfl⟩
    | _ => cases hsame
  | ask _ _ ih ih' =>
    cases h' with
    | ask hl h' =>
      cases hsame
      obtain ⟨he, rfl, rfl⟩ := ih hl rfl
      cases he
      obtain ⟨he, rfl, rfl⟩ := ih' h' rfl
      cases he
      exact ⟨rfl, rfl, rfl⟩
    | askFails hl => cases hsame; cases (ih hl rfl).1
    | _ => cases hsame
  | askFails _ ih =>
    cases h' with
    | ask hl => cases hsame; cases (ih hl rfl).1
    | askFails hl =>
      cases hsame
      obtain ⟨he, rfl, rfl⟩ := ih hl rfl
      cases he
      exact ⟨rfl, rfl, rfl⟩
    | _ => cases hsame
  | @remembered key v s hv =>
    have hset : isSettled src s key = true := isSettled_iff.mpr (Or.inr (Or.inl (mem_of_memo hv)))
    cases h' with
    | remembered hv' => cases hsame; cases hv.symm.trans hv'; exact ⟨rfl, rfl, rfl⟩
    | closed hm | literal hm => cases hsame; cases hv.symm.trans hm
    | start h' | startFails h' => cases hsame; simp [h'.not_settled] at hset
    | startStuck hkey => cases hsame; simp [hkey] at hset
    | _ => cases hsame
  | @closed key s hm hr =>
    have hset : isSettled src s key = true := isSettled_iff.mpr (Or.inr (Or.inr hr))
    cases h' with
    | remembered hv => cases hsame; cases hv.symm.trans hm
    | closed => cases hsame; exact ⟨rfl, rfl, rfl⟩
    | literal _ hr' => cases hsame; exact absurd hr hr'
    | start h' | startFails h' => cases hsame; simp [h'.not_settled] at hset
    | startStuck hkey => cases hsame; simp [hkey] at hset
    | _ => cases hsame
  | literal hm hr hf =>
    cases h' with
    | remembered hv => cases hsame; cases hv.symm.trans hm
    | closed _ hr' => cases hsame; exact absurd hr' hr
    | literal => cases hsame; exact ⟨rfl, rfl, rfl⟩
    | start h' | startFails h' =>
      cases hsame
      exact absurd (isSettled_eq_false_iff.mp h'.not_settled).1 hf
    | startStuck hkey => cases hsame; exact absurd (isSettled_eq_false_iff.mp hkey).1 hf
    | _ => cases hsame
  | start h hv ih =>
    obtain ⟨r', rfl⟩ := hsame.read
    rcases h'.read_unsettled h.not_settled with ⟨v', rfl, hc, hv'⟩ | ⟨f, rfl, hc⟩ | ⟨f, -, hf, -⟩
    · obtain ⟨-, rfl, rfl⟩ := ih hc rfl
      cases hv.symm.trans hv'
      exact ⟨rfl, rfl, rfl⟩
    · cases (ih hc rfl).1
    · exact absurd hf h.not_stuck
  | startFails h ih =>
    obtain ⟨r', rfl⟩ := hsame.read
    rcases h'.read_unsettled h.not_settled with ⟨v', rfl, hc, -⟩ | ⟨f, rfl, hc⟩ | ⟨f, -, hf, -⟩
    · cases (ih hc rfl).1
    · obtain ⟨he, rfl, rfl⟩ := ih hc rfl
      cases he
      exact ⟨rfl, rfl, rfl⟩
    · exact absurd hf h.not_stuck
  | startStuck hkey hdeps =>
    obtain ⟨r', rfl⟩ := hsame.read
    rcases h'.read_unsettled hkey with ⟨v', -, hc, -⟩ | ⟨f, -, hc⟩ | ⟨f, rfl, hf, rfl, rfl⟩
    · exact absurd hdeps hc.not_stuck
    · exact absurd hdeps hc.not_stuck
    · cases hdeps.symm.trans hf
      exact ⟨rfl, rfl, rfl⟩

end Session

end Spreadsheet
