import Spreadsheet.Log.Event
import Spreadsheet.Proofs.Json.RoundTrip

/-! # Forms of events

The form of an event is the map that the log keeps of it, with the entries of each map in the order of
their keys (`Event.form`). An event whose context is data has a form, and its line is the form in
printable ASCII: read as JSON, the line gives the form (`Event.IsData.exists_line`). -/

namespace Spreadsheet

namespace Log

namespace Event

open Json

/-- **The form of an event**: its fields as the log keeps them, the keys of each map in order. -/
def form (e : Event) : Except Fault Value := do
  return sorted (← stored e.toValue)

/-- An event that holds data: its context, and a version that has a numeral. -/
structure IsData (e : Event) : Prop where
  context : Data (.map e.context)
  schema : Writable (.int e.schema)

/-! ### Data as the log keeps them -/

theorem writable_text (s : String) : Writable (.text s) := fun _ h => by cases h

theorem writable_digit {n : Int} (h : n.natAbs < 10) : Writable (.int n) := fun m hm => by
  obtain rfl : n = m := by cases hm; rfl
  have hpower : ∀ k ≠ 0, 10 ≤ Decimal.powerOfTen k := fun k hk => Nat.le_self_pow hk 10
  exact Nat.lt_of_lt_of_le h (hpower numeralLimit (by decide))

theorem writable_storedScalar {v : Scalar} (h : Writable v) : Writable (storedScalar v) := by
  unfold storedScalar
  split
  · split <;> exact fun _ h => by cases h
  · exact h

theorem exists_storedItems {items : List Value} (h : ∀ v ∈ items, ∃ w, stored v = .ok w ∧ Data w) :
    ∃ kept, storedItems items = .ok kept ∧ ∀ w ∈ kept, Data w := by
  induction items with
  | nil => exact ⟨[], rfl, by simp⟩
  | cons v items ih =>
    obtain ⟨⟨w, hw, hdata⟩, hitems⟩ := List.forall_mem_cons.mp h
    obtain ⟨kept, hkept, hall⟩ := ih hitems
    refine ⟨w :: kept, ?_, List.forall_mem_cons.mpr ⟨hdata, hall⟩⟩
    rw [storedItems, hw, hkept]
    rfl

/-- Texts as keys stay as they are. -/
theorem exists_storedEntries {fields : List (String × Value)}
    (h : ∀ x ∈ fields, ∃ w, stored x.2 = .ok w ∧ Data w) : ∃ kept : List (String × Value),
      storedEntries (fields.map fun (k, v) => (.text k, v))
        = .ok (kept.map fun (k, v) => (.text k, v)) ∧
      kept.map Prod.fst = fields.map Prod.fst ∧ ∀ x ∈ kept, Data x.2 := by
  induction fields with
  | nil => exact ⟨[], rfl, rfl, by simp⟩
  | cons x fields ih =>
    obtain ⟨⟨w, hw, hdata⟩, hfields⟩ := List.forall_mem_cons.mp h
    obtain ⟨kept, hkept, hkeys, hall⟩ := ih hfields
    refine ⟨(x.1, w) :: kept, ?_, by rw [List.map_cons, List.map_cons, hkeys],
      List.forall_mem_cons.mpr ⟨hdata, hall⟩⟩
    rw [List.map_cons, storedEntries, hw, hkept]
    rfl

/-- **Data are kept as data.** -/
theorem exists_stored {v : Value} (h : Data v) : ∃ w, stored v = .ok w ∧ Data w := by
  induction h with
  | @scalar v h => exact ⟨_, by rw [stored], .scalar (writable_storedScalar h)⟩
  | list _ ih =>
    obtain ⟨kept, hkept, hall⟩ := exists_storedItems ih
    exact ⟨_, by rw [stored, hkept]; rfl, .list hall⟩
  | map hkeys _ ih =>
    obtain ⟨kept, hkept, hsame, hall⟩ := exists_storedEntries ih
    refine ⟨.ofFields kept, ?_, .map (hsame ▸ hkeys) hall⟩
    have hnodup : (kept.map Prod.fst).Nodup := hsame ▸ hkeys
    rw [Value.ofFields, stored, hkept]
    exact congrArg (fun m => Except.ok (Value.map m)) (mapOfList_fields hnodup)

/-! ### Lines of events -/

theorem IsData.toValue {e : Event} (h : e.IsData) : Data e.toValue := by
  have htext : ∀ s, Data (.text s) := fun s => .scalar (writable_text s)
  have hcode : Data (e.code.elim .null .text) := by
    cases e.code with
    | none => exact .scalar fun _ h => by cases h
    | some s => exact htext s
  refine .map (by simp) ?_
  simp only [List.forall_mem_cons, List.not_mem_nil, false_implies, implies_true, and_true]
  exact ⟨.scalar h.schema, htext _, htext _, htext _, h.context, htext _, hcode⟩

/-- **The line of an event** that holds data is its form in printable ASCII. -/
theorem IsData.exists_line {e : Event} (h : e.IsData) : ∃ t v, e.form = .ok v ∧
    e.line = .ok (Utf8.encode (t ++ ['\n'])) ∧ (∀ c ∈ t, IsPrintable c) ∧ read t = .ok v := by
  obtain ⟨w, hstored, hdata⟩ := exists_stored h.toValue
  obtain ⟨t, hline, hprintable, hread⟩ := hdata.exists_line
  refine ⟨t.toList, sorted w, ?_, ?_, hprintable, hread⟩
  · rw [form, hstored]
    rfl
  · rw [line, hstored]
    simp only [bind, Except.bind, hline]
    rfl

end Event

end Log

end Spreadsheet
