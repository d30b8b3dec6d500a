import Spreadsheet.Log.Query

/-! # Selection

A query looks at values one after the other, each of which answers it or not, until it has room for
no more. So it gives the first of those that answer it (`select_map`, `answer_of_values`). -/

namespace Spreadsheet

namespace Log

namespace Query

variable {q : Query} {v : Value}

/-! ### One value -/

theorem criterion_some {s : String} (hs : s ≠ "") : criterion (some s) = some s := by
  simp [criterion, Option.filter, hs]

/-- A map answers a query if each criterion is met, one after the other. -/
theorem selects_map (q : Query) (es : List (Scalar × Value)) : q.selects (.map es) =
    if holds q.level es "level" && holds q.kind es "event_type" then do
      if ← q.ofSheet es then q.ofCell es else return false
    else .ok false := by
  simp only [selects, entries, bind, Except.bind]
  cases holds q.level es "level" with
  | false => rfl
  | true =>
    cases holds q.kind es "event_type" with
    | false => rfl
    | true =>
      cases q.ofSheet es with
      | error e => rfl
      | ok b => cases b <;> rfl

/-- A query for events of any level and kind on a sheet, or on one of its cells. -/
structure For (q : Query) (sheet : String) (cell : Option String) : Prop where
  level : q.level = none
  kind : q.kind = none
  sheet : q.sheet = some sheet
  cell : q.cell = cell

theorem ofSheet_of_some {s : String} (hq : q.sheet = some s) (hs : s ≠ "")
    (es : List (Scalar × Value)) : q.ofSheet es = do
      match ← contextField es "sheet_name" with
      | some (.scalar v) => return v = .text s
      | _ => return false := by
  have hcriterion : criterion q.sheet = some s := by rw [hq, criterion_some hs]
  unfold ofSheet
  split
  · next hnone => exact absurd (hcriterion.symm.trans hnone) (Option.some_ne_none s)
  · next t hsome =>
    obtain rfl := Option.some.inj (hcriterion.symm.trans hsome)
    rfl

/-! ### One value after the other -/

theorem select_of_error {f : Failure} (h : q.selects v = .error f) (room : Nat)
    (values : List Value) : q.select room (v :: values) = .error f := by
  cases room <;> rw [select, h] <;> rfl

theorem select_of_false (h : q.selects v = .ok false) (room : Nat) (values : List Value) :
    q.select room (v :: values) = q.select room values := by
  cases room <;> rw [select, h] <;> rfl

theorem select_of_true (h : q.selects v = .ok true) (room : Nat) (values : List Value) :
    q.select (room + 1) (v :: values) = do return v :: (← q.select room values) := by
  rw [select, h]
  rfl

theorem select_last (h : q.selects v = .ok true) (values : List Value) :
    q.select 0 (v :: values) = .ok [v] := by
  rw [select, h]
  rfl

/-- **The first of the values that answer the query** are given. -/
theorem select_map {α : Type} {f : α → Value} {p : α → Bool} {l : List α}
    (h : ∀ a ∈ l, q.selects (f a) = .ok (p a)) (room : Nat) :
    q.select room (l.map f) = .ok (((l.filter p).take (room + 1)).map f) := by
  induction l generalizing room with
  | nil => rw [List.map_nil, select]; rfl
  | cons a l ih =>
    obtain ⟨ha, hl⟩ := List.forall_mem_cons.mp h
    cases hp : p a with
    | false =>
      rw [hp] at ha
      rw [List.map_cons, select_of_false ha, List.filter_cons_of_neg (by simp [hp])]
      exact ih hl room
    | true =>
      rw [hp] at ha
      rw [List.map_cons, List.filter_cons_of_pos hp, List.take_succ_cons, List.map_cons]
      cases room with
      | zero => rw [select_last ha, List.take_zero]; rfl
      | succ room => rw [select_of_true ha, ih hl room]; rfl

/-- Values that all answer the query, or do not. -/
theorem select_const {values : List Value} {b : Bool} (h : ∀ v ∈ values, q.selects v = .ok b)
    (room : Nat) : q.select room values = .ok (if b then values.take (room + 1) else []) := by
  have hmap := select_map (f := id) (p := fun _ => b) h room
  rw [List.map_id, List.map_id] at hmap
  rw [hmap]
  cases b with
  | false => simp
  | true =>
    have hall : values.filter (fun _ => true) = values := List.filter_eq_self.mpr fun _ _ => rfl
    rw [hall, if_pos rfl]

theorem room_pos (q : Query) : 0 < q.room :=
  Nat.lt_of_lt_of_le Nat.zero_lt_one (Nat.le_max_left _ _)

theorem room_of_pos {q : Query} (h : 0 < q.limit) :
    q.room = (min q.limit greatestLimit).toNat := by
  unfold room greatestLimit
  omega

theorem answer_of_values {size : Int} {octets : List UInt8} {values : List Value}
    (h : Journal.values size octets = .ok values) :
    q.answer size octets = q.select (q.room - 1) values.reverse := by
  rw [answer, h]
  rfl

end Query

end Log

end Spreadsheet
