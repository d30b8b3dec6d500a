import Spreadsheet.Proofs.Coercion.Failures
import Spreadsheet.Proofs.Ranges

/-! # Sums over ranges

`SUM` adds up the integers of all the ranges it is given (`evaluate_sum`). If one range is cut between
two rows or two columns (`Cut`), its cells are those of the two parts in some order (`Cut.perm`), so
its sum is the sum of theirs (`sum_cut`). That takes no more of the reader of cells than that reading
succeeds in some sense that the steps of a computation keep (`Succeeding`). -/

namespace Spreadsheet

namespace Number

/-- Integers add up to an integer. -/
theorem sum_int (ns : List Int) : Number.sum (ns.map int) = .ok (int ns.sum) := by
  have hfrom : ∀ start : Int, (ns.map int).foldlM Number.add (int start) =
      (.ok (int (start + ns.sum)) : Except Overflow Number) := by
    induction ns with
    | nil => intro start; simp; rfl
    | cons n ns ih =>
      intro start
      have hadd : (int start).add (int n) = .ok (int (start + n)) := rfl
      rw [List.map_cons, List.foldlM_cons, hadd, List.sum_cons, ← Int.add_assoc]
      exact ih (start + n)
  have hsum := hfrom 0
  rwa [Int.zero_add] at hsum

end Number

namespace Value

theorem numbersOfList_int (ns : List Int) :
    numbersOfList (ns.map Value.int) = .ok (ns.map Number.int) := by
  induction ns with
  | nil => rw [List.map_nil, numbersOfList]; rfl
  | cons n ns ih =>
    have hnumber : numbers (.int n) = .ok [.int n] := by
      rw [numbers]
      · rfl
      · simp
    rw [List.map_cons, numbersOfList, hnumber, ih]
    rfl

/-- The numbers in lists of integers are those of the first, then those of the second, and so on. -/
theorem numbersOfList_lists (parts : List (List Int)) :
    numbersOfList (parts.map fun ns => .list (ns.map Value.int)) =
      .ok (parts.flatten.map Number.int) := by
  induction parts with
  | nil => rw [List.map_nil, numbersOfList]; rfl
  | cons ns parts ih =>
    rw [List.map_cons, numbersOfList, numbers_list, numbersOfList_int, ih, List.flatten_cons,
      List.map_append]
    rfl

end Value

/-! ### Cuts -/

open Range

/-- **A cut**: the rectangle with the corners `p` and `q` falls into two, between two of its rows or
two of its columns. -/
inductive Cut (p q p₁ q₁ p₂ q₂ : Position) : Prop
  | rows (columns₁ : s(p₁.column, q₁.column) = s(p.column, q.column))
      (columns₂ : s(p₂.column, q₂.column) = s(p.column, q.column))
      (top : min p₁.row q₁.row = min p.row q.row)
      (edge : min p₂.row q₂.row = max p₁.row q₁.row + 1)
      (bottom : max p₂.row q₂.row = max p.row q.row)
  | columns (rows₁ : s(p₁.row, q₁.row) = s(p.row, q.row))
      (rows₂ : s(p₂.row, q₂.row) = s(p.row, q.row))
      (left : min p₁.column q₁.column = min p.column q.column)
      (edge : min p₂.column q₂.column = max p₁.column q₁.column + 1)
      (right : max p₂.column q₂.column = max p.column q.column)

namespace Cut

variable {p q p₁ q₁ p₂ q₂ x : Position} {a b a₁ b₁ a₂ b₂ n : Nat}

theorem sides_eq (h : s(a₁, b₁) = s(a, b)) : min a₁ b₁ = min a b ∧ max a₁ b₁ = max a b := by
  rcases Sym2.eq_iff.mp h with ⟨rfl, rfl⟩ | ⟨rfl, rfl⟩
  · exact ⟨rfl, rfl⟩
  · exact ⟨min_comm _ _, max_comm _ _⟩

/-- Two intervals next to each other make one. -/
theorem mem_halves (first : a₁ = a) (edge : a₂ = b₁ + 1) (last : b₂ = b) (h₁ : a₁ ≤ b₁)
    (h₂ : a₂ ≤ b₂) : (a ≤ n ∧ n ≤ b) ↔ (a₁ ≤ n ∧ n ≤ b₁) ∨ (a₂ ≤ n ∧ n ≤ b₂) := by
  omega

theorem mem_iff (h : Cut p q p₁ q₁ p₂ q₂) :
    x ∈ rectangle p q ↔ x ∈ rectangle p₁ q₁ ∨ x ∈ rectangle p₂ q₂ := by
  rw [mem_rectangle, mem_rectangle, mem_rectangle]
  cases h with
  | rows columns₁ columns₂ top edge bottom =>
    rw [mem_halves top edge bottom min_le_max min_le_max, (sides_eq columns₁).1,
      (sides_eq columns₁).2, (sides_eq columns₂).1, (sides_eq columns₂).2]
    exact or_and_right
  | columns rows₁ rows₂ left edge right =>
    rw [mem_halves left edge right min_le_max min_le_max, (sides_eq rows₁).1,
      (sides_eq rows₁).2, (sides_eq rows₂).1, (sides_eq rows₂).2]
    exact and_or_left

theorem disjoint (h : Cut p q p₁ q₁ p₂ q₂) :
    (rectangle p₁ q₁).Disjoint (rectangle p₂ q₂) := by
  intro x hx₁ hx₂
  rw [mem_rectangle] at hx₁ hx₂
  cases h with
  | rows columns₁ columns₂ top edge bottom => omega
  | columns rows₁ rows₂ left edge right => omega

/-- **The cells of a rectangle are those of its parts**, though in another order if the cut is
between columns. -/
theorem perm (h : Cut p q p₁ q₁ p₂ q₂) :
    (rectangle p q).Perm (rectangle p₁ q₁ ++ rectangle p₂ q₂) := by
  have hnodup : ∀ p q : Position, (rectangle p q).Nodup := fun p q =>
    Position.nodup_of_ordered (ordered_rectangle p q)
  have hparts : (rectangle p₁ q₁ ++ rectangle p₂ q₂).Nodup :=
    (hnodup p₁ q₁).append (hnodup p₂ q₂) h.disjoint
  -- A cut between columns divides every row, so the lists are compared by their members only.
  rw [List.perm_ext_iff_of_nodup (hnodup p q) hparts]
  intro x
  rw [List.mem_append]
  exact h.mem_iff

end Cut

/-! ### Sums of ranges -/

/-- The sum of the numbers of the cells in a rectangle. -/
def total (number : String → Int) (p q : Position) : Int :=
  ((rectangle p q).map fun x => number x.label).sum

theorem Cut.total_eq {p q p₁ q₁ p₂ q₂ : Position} (h : Cut p q p₁ q₁ p₂ q₂)
    (number : String → Int) : total number p q = total number p₁ q₁ + total number p₂ q₂ := by
  rw [total, (h.perm.map _).sum_eq, List.map_append, List.sum_append]
  rfl

/-- **Sums by parts**, where `comesTo e n` says that the expression comes to the integer: the sum over
a range that is cut in two is the sum of the sums over the parts, whether these are added up by `+`
or by `SUM` and in which order; and it is the same for every pair of opposite corners that names the
range. -/
structure SumsByParts (comesTo : Expr → Int → Prop) (number : String → Int)
    (name l k l₁ k₁ l₂ k₂ : String) (p q p₁ q₁ p₂ q₂ : Position) : Prop where
  parts : total number p q = total number p₁ q₁ + total number p₂ q₂
  first : comesTo (.call name [.range l₁ k₁]) (total number p₁ q₁)
  second : comesTo (.call name [.range l₂ k₂]) (total number p₂ q₂)
  whole : comesTo (.call name [.range l k]) (total number p q)
  added : comesTo (.binary .add (.call name [.range l₁ k₁]) (.call name [.range l₂ k₂]))
    (total number p q)
  both : comesTo (.call name [.range l₁ k₁, .range l₂ k₂]) (total number p q)
  turned : comesTo (.call name [.range l₂ k₂, .range l₁ k₁]) (total number p q)
  renamed : ∀ (l' k' : String) (p' q' : Position), Label.position l' = .ok p' →
    Label.position k' = .ok q' → s(p'.row, q'.row) = s(p.row, q.row) →
      s(p'.column, q'.column) = s(p.column, q.column) →
        comesTo (.call name [.range l' k']) (total number p q)

theorem SumsByParts.imp {comesTo comesTo' : Expr → Int → Prop} {number : String → Int}
    {name l k l₁ k₁ l₂ k₂ : String} {p q p₁ q₁ p₂ q₂ : Position}
    (h : SumsByParts comesTo number name l k l₁ k₁ l₂ k₂ p q p₁ q₁ p₂ q₂)
    (himp : ∀ e n, comesTo e n → comesTo' e n) :
    SumsByParts comesTo' number name l k l₁ k₁ l₂ k₂ p q p₁ q₁ p₂ q₂ where
  parts := h.parts
  first := himp _ _ h.first
  second := himp _ _ h.second
  whole := himp _ _ h.whole
  added := himp _ _ h.added
  both := himp _ _ h.both
  turned := himp _ _ h.turned
  renamed l' k' p' q' hl' hk' hrows hcolumns :=
    himp _ _ (h.renamed l' k' p' q' hl' hk' hrows hcolumns)

namespace Expr

variable {m : Type → Type}
  {yields : ∀ {α : Type}, ExceptT Fault m α → (α → Prop) → Prop}
  {read : String → ExceptT Fault m Value} {name l k l₁ k₁ l₂ k₂ : String}
  {p q p₁ q₁ p₂ q₂ : Position} {number : String → Int} {e₁ e₂ : Expr} {a b : Int}

variable (yields) in
/-- The cells of a rectangle are taken for integers. -/
def HoldsIntegers (read : String → ExceptT Fault m Value) (number : String → Int)
    (p q : Position) : Prop :=
  ∀ x ∈ rectangle p q, yields (read x.label) fun v => v.toNumber = .ok (.int (number x.label))

theorem HoldsIntegers.mono (h : HoldsIntegers @yields read number p q)
    (hsub : ∀ x ∈ rectangle p₁ q₁, x ∈ rectangle p q) : HoldsIntegers @yields read number p₁ q₁ :=
  fun x hx => h x (hsub x hx)

variable [Monad m]

/-- **A sense in which computations succeed** with a value that has a property: a value does, and two
computations one after the other do if the second does on every value of the first. -/
structure Succeeding (yields : ∀ {α : Type}, ExceptT Fault m α → (α → Prop) → Prop) : Prop where
  pure : ∀ {α : Type} {p : α → Prop} {a : α}, p a → yields (pure a) p
  bind : ∀ {α β : Type} {x : ExceptT Fault m α} {f : α → ExceptT Fault m β} {p : α → Prop}
    {q : β → Prop}, yields x p → (∀ a, p a → yields (f a) q) → yields (x >>= f) q

variable (yields) in
/-- The expression is read as a list of integers. -/
def IsIntegers (read : String → ExceptT Fault m Value) (e : Expr) (ns : List Int) : Prop :=
  yields (evaluate read e) fun v => v = .list (ns.map Value.int)

variable (yields) in
/-- The expression comes to an integer. -/
def IsInteger (read : String → ExceptT Fault m Value) (e : Expr) (n : Int) : Prop :=
  yields (evaluate read e) fun v => v = .int n

namespace Succeeding

variable (hy : Succeeding @yields)

include hy

theorem evaluateList_integers {es : List Expr} {parts : List (List Int)}
    (h : List.Forall₂ (IsIntegers @yields read) es parts) : yields (evaluateList read es)
      fun vs => vs = parts.map fun ns => .list (ns.map Value.int) := by
  induction h with
  | nil =>
    rw [evaluateList]
    exact hy.pure rfl
  | cons he _ ih =>
    rw [evaluateList]
    refine hy.bind he ?_
    rintro _ rfl
    refine hy.bind ih ?_
    rintro _ rfl
    exact hy.pure rfl

/-- **`SUM` adds up the integers** of all its arguments. -/
theorem evaluate_sum (hname : Text.upper name = "SUM") {es : List Expr} {parts : List (List Int)}
    (h : List.Forall₂ (IsIntegers @yields read) es parts) :
    IsInteger @yields read (.call name es) parts.flatten.sum := by
  have hconditional : isConditional name = false := by
    rw [isConditional, hname]
    rfl
  have hvalue : Function.applyNamed name (parts.map fun ns => .list (ns.map Value.int)) =
      .ok (.int parts.flatten.sum) := by
    have hfunction : Function.ofName? "SUM" = some .sum := rfl
    rw [Function.applyNamed, hname, hfunction]
    show Function.apply .sum _ = _
    rw [Function.apply, Value.numbersOfList_lists]
    show Number.orFault (Number.sum (parts.flatten.map Number.int)) = _
    rw [Number.sum_int]
    rfl
  rw [IsInteger, evaluate, hconditional]
  refine hy.bind (hy.evaluateList_integers h) ?_
  rintro _ rfl
  rw [hvalue]
  exact hy.pure rfl

theorem evaluate_add (h₁ : IsInteger @yields read e₁ a) (h₂ : IsInteger @yields read e₂ b) :
    IsInteger @yields read (.binary .add e₁ e₂) (a + b) := by
  have hnumber : ∀ n : Int, (Value.int n).toNumber = .ok (.int n) := fun _ => rfl
  rw [IsInteger, evaluate]
  refine hy.bind h₁ ?_
  rintro _ rfl
  rw [hnumber]
  refine hy.bind (hy.pure rfl) ?_
  rintro _ rfl
  refine hy.bind h₂ ?_
  rintro _ rfl
  rw [hnumber]
  refine hy.bind (hy.pure rfl) ?_
  rintro _ rfl
  exact hy.pure rfl

variable [LawfulMonad m]

/-- Cells that are taken for integers are read one after the other. -/
theorem mapM_read {ps : List Position} (h : ∀ x ∈ ps,
    yields (read x.label) fun v => v.toNumber = .ok (.int (number x.label))) :
    yields ((ps.map Position.label).mapM read) fun vs =>
      vs.mapM numberIn = .ok ((ps.map fun x => number x.label).map Value.int) := by
  induction ps with
  | nil => exact hy.pure rfl
  | cons x ps ih =>
    rw [List.map_cons, List.mapM_cons]
    refine hy.bind (h x List.mem_cons_self) fun v hv => ?_
    refine hy.bind (ih fun y hy => h y (List.mem_cons_of_mem x hy)) fun vs hvs => hy.pure ?_
    have hnumber : numberIn v = .ok (.int (number x.label)) := by
      rw [numberIn, hv]
      rfl
    rw [List.mapM_cons, hnumber, hvs]
    rfl

/-- A range of such cells is read as the list of their numbers. -/
theorem isIntegers_range (h : HoldsIntegers @yields read number p q)
    (hl : Label.position l = .ok p) (hk : Label.position k = .ok q) :
    IsIntegers @yields read (.range l k) ((rectangle p q).map fun x => number x.label) := by
  rw [IsIntegers, evaluate, readRange, Label.labels_of_positions hl hk, pureResult_ok_bind]
  refine hy.bind (hy.mapM_read h) fun vs hvs => ?_
  rw [hvs]
  refine hy.bind (hy.pure rfl) ?_
  rintro _ rfl
  exact hy.pure rfl

theorem evaluate_sum_range (h : HoldsIntegers @yields read number p q)
    (hname : Text.upper name = "SUM") (hl : Label.position l = .ok p)
    (hk : Label.position k = .ok q) :
    IsInteger @yields read (.call name [.range l k]) (total number p q) := by
  have hsum := hy.evaluate_sum hname (.cons (hy.isIntegers_range h hl hk) .nil)
  rwa [List.flatten_singleton] at hsum

theorem evaluate_sum_ranges (h₁ : HoldsIntegers @yields read number p₁ q₁)
    (h₂ : HoldsIntegers @yields read number p₂ q₂) (hname : Text.upper name = "SUM")
    (hl₁ : Label.position l₁ = .ok p₁) (hk₁ : Label.position k₁ = .ok q₁)
    (hl₂ : Label.position l₂ = .ok p₂) (hk₂ : Label.position k₂ = .ok q₂) :
    IsInteger @yields read (.call name [.range l₁ k₁, .range l₂ k₂])
      (total number p₁ q₁ + total number p₂ q₂) := by
  have hsum := hy.evaluate_sum hname
    (.cons (hy.isIntegers_range h₁ hl₁ hk₁) (.cons (hy.isIntegers_range h₂ hl₂ hk₂) .nil))
  rwa [List.flatten_cons, List.flatten_singleton, List.sum_append] at hsum

/-- In every sense in which computations succeed, sums are taken by parts. -/
theorem sumsByParts (h : HoldsIntegers @yields read number p q) (hcut : Cut p q p₁ q₁ p₂ q₂)
    (hname : Text.upper name = "SUM")
    (hl : Label.position l = .ok p) (hk : Label.position k = .ok q)
    (hl₁ : Label.position l₁ = .ok p₁) (hk₁ : Label.position k₁ = .ok q₁)
    (hl₂ : Label.position l₂ = .ok p₂) (hk₂ : Label.position k₂ = .ok q₂) :
    SumsByParts (IsInteger @yields read) number name l k l₁ k₁ l₂ k₂ p q p₁ q₁ p₂ q₂ := by
  have hparts := hcut.total_eq number
  have hfirst : HoldsIntegers @yields read number p₁ q₁ :=
    h.mono fun x hx => hcut.mem_iff.mpr (.inl hx)
  have hsecond : HoldsIntegers @yields read number p₂ q₂ :=
    h.mono fun x hx => hcut.mem_iff.mpr (.inr hx)
  have hone := hy.evaluate_sum_range hfirst hname hl₁ hk₁
  have htwo := hy.evaluate_sum_range hsecond hname hl₂ hk₂
  refine ⟨hparts, hone, htwo, hy.evaluate_sum_range h hname hl hk, ?_, ?_, ?_, ?_⟩
  · rw [hparts]
    exact hy.evaluate_add hone htwo
  · rw [hparts]
    exact hy.evaluate_sum_ranges hfirst hsecond hname hl₁ hk₁ hl₂ hk₂
  · rw [hparts, Int.add_comm]
    exact hy.evaluate_sum_ranges hsecond hfirst hname hl₂ hk₂ hl₁ hk₁
  · intro l' k' p' q' hl' hk' hrows hcolumns
    have hsame : rectangle p' q' = rectangle p q := rectangle_eq_iff.mpr ⟨hrows, hcolumns⟩
    have htotal : total number p' q' = total number p q := by rw [total, hsame, total]
    rw [← htotal]
    exact hy.evaluate_sum_range (h.mono fun x hx => hsame ▸ hx) hname hl' hk'

end Succeeding

variable [LawfulMonad m]

/-- Computations that do nothing but give a value. -/
theorem succeeding_pure :
    Succeeding (m := m) fun {α} x p => ∃ a : α, x = pure a ∧ p a where
  pure hp := ⟨_, rfl, hp⟩
  bind := by
    rintro α β _ f p q ⟨a, rfl, ha⟩ hf
    rw [pure_bind]
    exact hf a ha

/-- **The sum over a range is the sum over its parts.** A range whose cells are taken for integers is
cut between two of its rows or columns. Then sums over it are the totals of its cells, and are taken
by parts. -/
theorem sum_cut {m : Type → Type} [Monad m] [LawfulMonad m]
    {read : String → ExceptT Fault m Value} {number : String → Int}
    {name l k l₁ k₁ l₂ k₂ : String} {p q p₁ q₁ p₂ q₂ : Position}
    (hname : Text.upper name = "SUM")
    (hl : Label.position l = .ok p) (hk : Label.position k = .ok q)
    (hl₁ : Label.position l₁ = .ok p₁) (hk₁ : Label.position k₁ = .ok q₁)
    (hl₂ : Label.position l₂ = .ok p₂) (hk₂ : Label.position k₂ = .ok q₂)
    (hcut : Cut p q p₁ q₁ p₂ q₂)
    (hcells : ∀ x ∈ rectangle p q,
      ∃ v, read x.label = pure v ∧ v.toNumber = .ok (.int (number x.label))) :
    SumsByParts (fun e n => evaluate read e = pure (.int n)) number name l k l₁ k₁ l₂ k₂
      p q p₁ q₁ p₂ q₂ := by
  refine (succeeding_pure.sumsByParts hcells hcut hname hl hk hl₁ hk₁ hl₂ hk₂).imp ?_
  rintro e n ⟨_, he, rfl⟩
  exact he

/-- Four cells that are taken for integers. -/
def ledger (label : String) : Value :=
  if label = "A1" then .int 1
  else if label = "B1" then .scalar (.bool true)
  else if label = "A2" then .null
  else .text "many"

def readLedger (label : String) : ExceptT Fault Id Value :=
  pure (ledger label)

/-- What they are taken for. -/
def ledgerNumber (label : String) : Int :=
  if label = "A1" then 1 else if label = "B1" then 1 else 0

theorem toNumber_ledger (label : String) :
    (ledger label).toNumber = .ok (.int (ledgerNumber label)) := by
  unfold ledger ledgerNumber
  split_ifs <;> rfl

theorem sum_cut_columns : Text.upper "sum" = "SUM" ∧
    Label.position "A1" = .ok ⟨0, 0⟩ ∧ Label.position "B2" = .ok ⟨1, 1⟩ ∧
    Label.position "A2" = .ok ⟨1, 0⟩ ∧ Label.position "b1" = .ok ⟨0, 1⟩ ∧
    Cut ⟨0, 0⟩ ⟨1, 1⟩ ⟨0, 0⟩ ⟨1, 0⟩ ⟨1, 1⟩ ⟨0, 1⟩ ∧
    (∀ x ∈ rectangle ⟨0, 0⟩ ⟨1, 1⟩, ∃ v, readLedger x.label = pure v ∧
      v.toNumber = .ok (.int (ledgerNumber x.label))) ∧
    SumsByParts (fun e n => evaluate readLedger e = pure (.int n)) ledgerNumber "sum"
      "A1" "B2" "A1" "A2" "B2" "b1" ⟨0, 0⟩ ⟨1, 1⟩ ⟨0, 0⟩ ⟨1, 0⟩ ⟨1, 1⟩ ⟨0, 1⟩ ∧
    total ledgerNumber ⟨0, 0⟩ ⟨1, 1⟩ = 2 := by
  have hname : Text.upper "sum" = "SUM" := by decide +kernel
  have hfirst : Label.position "A1" = .ok ⟨0, 0⟩ := rfl
  have hlast : Label.position "B2" = .ok ⟨1, 1⟩ := rfl
  have hbelow : Label.position "A2" = .ok ⟨1, 0⟩ := rfl
  have hbeside : Label.position "b1" = .ok ⟨0, 1⟩ := rfl
  have hcut : Cut ⟨0, 0⟩ ⟨1, 1⟩ ⟨0, 0⟩ ⟨1, 0⟩ ⟨1, 1⟩ ⟨0, 1⟩ :=
    .columns rfl Sym2.eq_swap rfl rfl rfl
  have hcells : ∀ x ∈ rectangle ⟨0, 0⟩ ⟨1, 1⟩, ∃ v, readLedger x.label = pure v ∧
      v.toNumber = .ok (.int (ledgerNumber x.label)) := fun x _ => ⟨_, rfl, toNumber_ledger _⟩
  exact ⟨hname, hfirst, hlast, hbelow, hbeside, hcut, hcells,
    sum_cut hname hfirst hlast hfirst hbelow hlast hbeside hcut hcells, by decide +kernel⟩

end Expr

end Spreadsheet
