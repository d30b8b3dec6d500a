import Spreadsheet.Proofs.Log.Damage

/-! # Answers to queries

What answers a query is said once more without the walk over the journal: an event meets all of the
criteria or does not (`Query.admits`), and the answer is made of the latest events that meet them. A
walk that has found an event only then looks whether there is room for more, so it gives one event
where none is asked for (`answer_admitted`). -/

namespace Spreadsheet

namespace Log

namespace Query

open Journal

variable {q : Query} {es : List (Scalar × Value)}

/-! ### Criteria -/

/-- The text under a key, if there is a text. -/
def textUnder? (es : List (Scalar × Value)) (key : String) : Option String :=
  match Value.field? es key with
  | some (.scalar (.text s)) => some s
  | _ => none

/-- The context of an event, which may be left out or empty. -/
def contextOf (es : List (Scalar × Value)) : List (Scalar × Value) :=
  match Value.field? es "context" with
  | some (.map context) => context
  | _ => []

/-- The label of the cell that an event is about, as it is shown; the empty text if it names none. -/
def labelText (es : List (Scalar × Value)) : String :=
  ((Value.field? (contextOf es) "cell").getD (.text "")).shown.toOption.getD ""

/-- Is what has been found what is wanted? Where nothing is wanted, or the empty text, all will do. -/
def meets (wanted found : Option String) : Bool :=
  wanted.all fun s => s.isEmpty || found == some s

/-- **Does a value meet all the criteria of a query?** -/
def admits (q : Query) : Value → Bool
  | .map es =>
    meets q.level (textUnder? es "level") && meets q.kind (textUnder? es "event_type") &&
      meets q.sheet (textUnder? (contextOf es) "sheet_name") &&
      meets (q.cell.map fun s => Text.upper (Text.trim s)) (some (Text.upper (labelText es)))
  | _ => false

theorem meets_of_criterion_none {wanted : Option String} (h : criterion wanted = none)
    (found : Option String) : meets wanted found = true := by
  cases wanted with
  | none => rfl
  | some s =>
    have hs : s.isEmpty = true := by simpa [criterion, Option.filter] using h
    simp [meets, hs]

theorem meets_of_criterion_some {wanted : Option String} {s : String}
    (h : criterion wanted = some s) (found : Option String) :
    meets wanted found = (found == some s) := by
  obtain ⟨rfl, hs⟩ := Option.filter_eq_some_iff.mp h
  have hempty : s.isEmpty = false := by simpa using hs
  simp [meets, hempty]

theorem holds_eq_meets (wanted : Option String) (es : List (Scalar × Value)) (key : String) :
    holds wanted es key = meets wanted (textUnder? es key) := by
  unfold holds
  cases hcriterion : criterion wanted with
  | none => exact (meets_of_criterion_none hcriterion _).symm
  | some s =>
    rw [meets_of_criterion_some hcriterion, textUnder?]
    cases Value.field? es key with
    | none => rfl
    | some v =>
      cases v with
      | scalar v => cases v <;> simp [beq_eq_decide]
      | list items => rfl
      | map es => rfl

/-! ### Events -/

theorem contextField_of_isEvent (hv : IsEvent (.map es)) (key : String) :
    contextField es key = .ok (Value.field? (contextOf es) key) := by
  obtain ⟨_, hes, hcontext⟩ := hv
  obtain rfl := Value.map.inj hes
  unfold contextField contextOf
  cases hfound : Value.field? es "context" with
  | none => rfl
  | some context =>
    by_cases hfilled : context.isFilled = true
    · obtain ⟨fields, rfl⟩ := hcontext context hfound hfilled
      simp only [hfilled, if_true]
      rfl
    · simp only [hfilled]
      cases context with
      | map fields =>
        obtain rfl : fields = [] := by simpa [Value.isFilled] using hfilled
        rfl
      | _ => rfl

theorem ofSheet_of_isEvent (hv : IsEvent (.map es)) :
    q.ofSheet es = .ok (meets q.sheet (textUnder? (contextOf es) "sheet_name")) := by
  rw [← holds_eq_meets, ofSheet, holds]
  cases criterion q.sheet with
  | none => rfl
  | some s =>
    rw [contextField_of_isEvent hv]
    cases Value.field? (contextOf es) "sheet_name" with
    | none => rfl
    | some v => cases v <;> rfl

/-- What data says of a cell can be shown. -/
theorem shown_labelText (hv : IsEvent (.map es)) (hdata : Json.Data (.map es)) :
    ((Value.field? (contextOf es) "cell").getD (.text "")).shown = .ok (labelText es) := by
  obtain ⟨found, hfound, hall⟩ := exists_contextField hv hdata "cell"
  rw [contextField_of_isEvent hv] at hfound
  obtain rfl := Except.ok.inj hfound
  have hcell : Json.Data ((Value.field? (contextOf es) "cell").getD (.text "")) := by
    cases hfield : Value.field? (contextOf es) "cell" with
    | none => exact .scalar fun _ h => (by cases h)
    | some w => exact hall w hfield
  obtain ⟨s, hs⟩ := hcell.exists_shown
  rw [labelText, hs]
  rfl

theorem criterion_map_criterion {f : String → String} (hf : f "" = "") (c : Option String) :
    criterion ((criterion c).map f) = criterion (c.map f) := by
  cases c with
  | none => rfl
  | some s =>
    by_cases hs : s = ""
    · subst hs
      simp [criterion, Option.filter, hf]
    · rw [criterion_some hs]

theorem ofCell_of_isEvent (hv : IsEvent (.map es)) (hdata : Json.Data (.map es)) :
    q.ofCell es = .ok (meets (q.cell.map fun s => Text.upper (Text.trim s))
      (some (Text.upper (labelText es)))) := by
  have hempty : Text.upper (Text.trim "") = "" := by decide
  unfold ofCell
  rw [criterion_map_criterion (f := fun s => Text.upper (Text.trim s)) hempty]
  cases hcriterion : criterion (q.cell.map fun s => Text.upper (Text.trim s)) with
  | none => exact congrArg Except.ok (meets_of_criterion_none hcriterion _).symm
  | some s =>
    rw [meets_of_criterion_some hcriterion]
    simp only [contextField_of_isEvent hv, bind, Except.bind, shown_labelText hv hdata,
      Except.mapError]
    rfl

/-- **An event answers a query** if it meets all the criteria. -/
theorem selects_eq_admits (q : Query) {v : Value} (hv : IsEvent v) (hdata : Json.Data v) :
    q.selects v = .ok (q.admits v) := by
  obtain ⟨es, rfl, -⟩ := id hv
  rw [selects_map, holds_eq_meets, holds_eq_meets, ofSheet_of_isEvent hv, ofCell_of_isEvent hv hdata,
    admits]
  cases meets q.level (textUnder? es "level") <;>
    cases meets q.kind (textUnder? es "event_type") <;>
      cases meets q.sheet (textUnder? (contextOf es) "sheet_name") <;> rfl

/-! ### Counts -/

/-- How many events a query asks for. -/
def wanted (q : Query) : Nat :=
  (max 0 (min q.limit greatestLimit)).toNat

theorem room_eq_wanted (h : 0 < q.limit) : q.room = q.wanted := by
  rw [room_of_pos h, wanted]
  unfold greatestLimit
  omega

theorem room_of_not_pos (h : ¬ 0 < q.limit) : q.room = 1 ∧ q.wanted = 0 := by
  unfold room wanted greatestLimit
  omega

theorem take_room_iff {α : Type} {l : List α} :
    l.take q.room = l.take q.wanted ↔ 0 < q.limit ∨ l = [] := by
  by_cases hlimit : 0 < q.limit
  · exact iff_of_true (by rw [room_eq_wanted hlimit]) (.inl hlimit)
  · obtain ⟨hroom, hwanted⟩ := room_of_not_pos hlimit
    rw [hroom, hwanted, or_iff_right hlimit]
    cases l <;> simp

theorem length_take_room_iff {α : Type} {l : List α} :
    ((l.take q.room).length : Int) ≤ max 0 q.limit ↔ 0 < q.limit ∨ l = [] := by
  rw [List.length_take]
  by_cases hlimit : 0 < q.limit
  · refine iff_of_true ?_ (.inl hlimit)
    rw [room_eq_wanted hlimit, wanted]
    omega
  · obtain ⟨hroom, -⟩ := room_of_not_pos hlimit
    rw [hroom, or_iff_right hlimit]
    cases l with
    | nil => simp
    | cons a l =>
      simp only [List.length_cons, reduceCtorEq, iff_false]
      omega

end Query

open Journal Query in
/-- **A query is answered** by the latest events that meet its criteria: by as many as are asked for,
if any are, and by the latest one alone if none is asked for. -/
theorem answer_admitted (q : Query) {size : Int} {octets : List UInt8} {values : List Value}
    (hvalues : Journal.values size octets = .ok values) (hevents : ∀ v ∈ values, IsEvent v) :
    ∃ events, q.answer size octets = .ok events ∧
      events = (values.reverse.filter q.admits).take (max 1 (min q.limit greatestLimit)).toNat ∧
      (events = (values.reverse.filter q.admits).take (max 0 (min q.limit greatestLimit)).toNat ↔
        0 < q.limit ∨ values.filter q.admits = []) ∧
      ((events.length : Int) ≤ max 0 q.limit ↔ 0 < q.limit ∨ values.filter q.admits = []) := by
  have hdata := data_of_valuesOfLines hvalues
  have hselects : ∀ v ∈ values.reverse, q.selects v = .ok (q.admits v) := fun v hv =>
    selects_eq_admits q (hevents v (List.mem_reverse.mp hv)) (hdata v (List.mem_reverse.mp hv))
  have hanswer : q.answer size octets
      = .ok ((values.reverse.filter q.admits).take q.room) := by
    have hmap := select_map (f := id) hselects (q.room - 1)
    rw [List.map_id, List.map_id, Nat.sub_add_cancel (room_pos q)] at hmap
    rw [answer_of_values hvalues, hmap]
  have hroom : q.room = (max 1 (min q.limit greatestLimit)).toNat := by
    unfold room
    omega
  have hnone : values.reverse.filter q.admits = [] ↔ values.filter q.admits = [] := by
    rw [List.filter_reverse, List.reverse_eq_nil_iff]
  refine ⟨_, hanswer, by rw [hroom], ?_, ?_⟩
  · rw [← hnone]
    exact take_room_iff
  · rw [← hnone]
    exact length_take_room_iff

/-- Three events: two of them are about a cell, the label of one is in lower case. -/
def threeEvents : List UInt8 :=
  Utf8.encode ("\x7b\"context\": \x7b\"cell\": \"B2\"\x7d\x7d\n\x7b\x7d\n" ++
    "\x7b\"context\": \x7b\"cell\": \"b2\"\x7d\x7d\n").toList

/-- An event about a cell. -/
def eventAbout (cell : String) : Value :=
  .ofFields [("context", .ofFields [("cell", .text cell)])]

open Journal Query in
/-- Of the two events about a cell, one is asked for. -/
theorem answer_admitted_latest :
    Journal.values 70 threeEvents = .ok [eventAbout "B2", .map [], eventAbout "b2"] ∧
    (∀ v ∈ [eventAbout "B2", .map [], eventAbout "b2"], IsEvent v) ∧
    answer { cell := some " b2", limit := 1 } 70 threeEvents = .ok [eventAbout "b2"] := by
  have hvalues : Journal.values 70 threeEvents
      = .ok [eventAbout "B2", .map [], eventAbout "b2"] := by rfl
  have hevent : ∀ cell, IsEvent (eventAbout cell) := fun cell =>
    ⟨_, rfl, fun v hv _ => ⟨_, (Option.some.inj hv).symm⟩⟩
  have hempty : IsEvent (.map []) := ⟨_, rfl, fun v hv => by cases hv⟩
  have hevents : ∀ v ∈ [eventAbout "B2", .map [], eventAbout "b2"], IsEvent v :=
    List.forall_mem_cons.mpr ⟨hevent _, List.forall_mem_cons.mpr ⟨hempty,
      List.forall_mem_singleton.mpr (hevent _)⟩⟩
  obtain ⟨events, hanswer, rfl, -⟩ :=
    answer_admitted { cell := some " b2", limit := 1 } hvalues hevents
  exact ⟨hvalues, hevents, hanswer⟩

open Journal Query in
/-- **Where no event is asked for**, one is given. -/
theorem not_within_limit : ¬ ∀ (q : Query) (size : Int) (octets : List UInt8) (values : List Value),
    Journal.values size octets = .ok values → (∀ v ∈ values, IsEvent v) → q.answer size octets
      = .ok ((values.reverse.filter q.admits).take (max 0 (min q.limit greatestLimit)).toNat) := by
  intro h
  have hevents : ∀ v ∈ [Value.ofFields [("level", .text "info")]], IsEvent v :=
    List.forall_mem_singleton.mpr ⟨_, rfl, fun v hv => by cases hv⟩
  have hnone := h { limit := 0 } 30 (Utf8.encode "\x7b\"level\": \"info\"\x7d\n".toList)
    [.ofFields [("level", .text "info")]] (by rfl) hevents
  have hone : answer { limit := 0 } 30 (Utf8.encode "\x7b\"level\": \"info\"\x7d\n".toList)
      = .ok [.ofFields [("level", .text "info")]] := by rfl
  rw [hone] at hnone
  cases hnone

end Log

end Spreadsheet
