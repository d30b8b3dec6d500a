import Spreadsheet.Proofs.Json.Fields
import Spreadsheet.Proofs.Keys
import Spreadsheet.Proofs.Log.Forms
import Spreadsheet.Proofs.Log.Selection

/-! # Events that are kept as they are

The log gives an event back as it was, its fields in the order of their names, if the fields of its
context are kept as they are (`Plain.form`); texts and integers are (`plain_of_simple`). A query for
a sheet or a cell then decides by what stands in that context (`Plain.selects_of_sheet`,
`Plain.ofCell`). -/

namespace Spreadsheet

open Json (sortedFields)

namespace Log

namespace Event

/-- The fields of an event. -/
def fields (e : Event) : List (String × Value) :=
  [("schema_version", .int e.schema), ("ts", .text e.time), ("level", .text e.level.name),
    ("event_type", .text e.kind.name), ("context", .map e.context), ("message", .text e.message),
    ("error_code", e.code.elim .null .text)]

theorem toValue_eq (e : Event) : e.toValue = .ofFields e.fields := rfl

theorem nodup_fields (e : Event) : (e.fields.map Prod.fst).Nodup := by
  simp [fields]

/-- What the log gives back of an event that it keeps as it is. -/
def kept (e : Event) : Value :=
  .ofFields (sortedFields e.fields)

/-- An event whose context has fields that are kept as they are. -/
structure Plain (e : Event) (context : List (String × Value)) : Prop where
  isContext : e.context = context.map fun (k, v) => (.text k, v)
  keys : (context.map Prod.fst).Nodup
  same : ∀ x ∈ context, stored x.2 = .ok x.2
  isData : e.IsData

theorem stored_text (s : String) : stored (.text s) = .ok (.text s) := by
  simp [stored, storedScalar]

theorem stored_int (n : Int) : stored (.int n) = .ok (.int n) := by
  simp [stored, storedScalar]

theorem storedEntries_of_stored {fields : List (String × Value)}
    (h : ∀ x ∈ fields, stored x.2 = .ok x.2) :
    storedEntries (fields.map fun (k, v) => (.text k, v))
      = .ok (fields.map fun (k, v) => (.text k, v)) := by
  induction fields with
  | nil => rfl
  | cons x fields ih =>
    obtain ⟨hx, hfields⟩ := List.forall_mem_cons.mp h
    rw [List.map_cons, storedEntries, hx, ih hfields]
    rfl

theorem stored_ofFields {fields : List (String × Value)} (hkeys : (fields.map Prod.fst).Nodup)
    (h : ∀ x ∈ fields, stored x.2 = .ok x.2) :
    stored (.ofFields fields) = .ok (.ofFields fields) := by
  rw [Value.ofFields, stored, storedEntries_of_stored h]
  exact congrArg (fun m => Except.ok (Value.map m)) (Json.mapOfList_fields hkeys)

theorem Plain.form {e : Event} {context : List (String × Value)} (h : e.Plain context) :
    e.form = .ok e.kept := by
  have hcontext : stored (.map e.context) = .ok (.map e.context) := by
    rw [h.isContext]
    exact stored_ofFields h.keys h.same
  have hfields : ∀ x ∈ e.fields, stored x.2 = .ok x.2 := by
    simp only [fields, List.forall_mem_cons, List.not_mem_nil, false_implies, implies_true, and_true]
    refine ⟨stored_int _, stored_text _, stored_text _, stored_text _, hcontext, stored_text _, ?_⟩
    cases e.code with
    | none => simp [stored, storedScalar]
    | some s => exact stored_text s
  rw [Event.form, toValue_eq, stored_ofFields e.nodup_fields hfields]
  exact congrArg Except.ok (Json.sorted_ofFields e.fields)

/-- Texts and integers are kept as they are. -/
theorem plain_of_simple {e : Event} {context : List (String × Value)}
    (hcontext : e.context = context.map fun (k, v) => (.text k, v))
    (hkeys : (context.map Prod.fst).Nodup) (hschema : e.schema = 1)
    (hsimple : ∀ x ∈ context, (∃ s, x.2 = .text s) ∨ ∃ n, x.2 = .int n ∧ Json.Writable (.int n)) :
    e.Plain context where
  isContext := hcontext
  keys := hkeys
  same x hx := by
    rcases hsimple x hx with ⟨s, hs⟩ | ⟨n, hn, -⟩
    · rw [hs, stored_text]
    · rw [hn, stored_int]
  isData := by
    refine ⟨?_, by rw [hschema]; exact writable_digit (by decide)⟩
    rw [hcontext]
    refine .map hkeys fun x hx => ?_
    rcases hsimple x hx with ⟨s, hs⟩ | ⟨n, hn, hwritable⟩
    · rw [hs]
      exact .scalar (writable_text s)
    · rw [hn]
      exact .scalar hwritable

/-- **What the context of a kept event holds under a key.** -/
theorem Plain.contextField {e : Event} {context : List (String × Value)} (h : e.Plain context)
    (hne : context ≠ []) (key : String) :
    Query.contextField ((sortedFields e.fields).map fun (k, v) => (.text k, v)) key
      = .ok (Value.field? ((sortedFields context).map fun (k, v) => (.text k, v)) key) := by
  have hmem : ("context", Value.map e.context) ∈ e.fields := by simp [fields]
  have hsorted : Json.sorted (.map e.context) = .ofFields (sortedFields context) := by
    rw [h.isContext]
    exact Json.sorted_ofFields context
  have hfilled : (Value.ofFields (sortedFields context)).isFilled = true := by
    have hlength := (Json.keys_sortedFields context).length_eq
    rw [List.length_map, List.length_map] at hlength
    have hpos := List.length_pos_iff.mpr hne
    cases hs : sortedFields context with
    | nil => rw [hs] at hlength; simp at hlength; omega
    | cons x rest => rfl
  rw [Query.contextField, Json.field?_sorted e.nodup_fields hmem, hsorted]
  simp only [hfilled, if_true]
  rfl

/-! ### Queries for kept events -/

section Queries

variable {e : Event} {context : List (String × Value)} {q : Query} {cell : Option String}

/-- Whether a query for a sheet selects a kept event that names one. -/
theorem Plain.selects_of_sheet (h : e.Plain context) {s t : String}
    (hs : ("sheet_name", .text s) ∈ context) (ht : t ≠ "") (hq : q.For t cell) {b : Bool}
    (hcell : s = t →
      q.ofCell ((sortedFields e.fields).map fun (k, v) => (.text k, v)) = .ok b) :
    q.selects e.kept = .ok (decide (s = t) && b) := by
  have hne : context ≠ [] := List.ne_nil_of_mem hs
  have hof : q.ofSheet ((sortedFields e.fields).map fun (k, v) => (.text k, v))
      = .ok (decide (s = t)) := by
    rw [Query.ofSheet_of_some hq.sheet ht, h.contextField hne, Json.field?_sorted h.keys hs]
    show Except.ok (decide (Scalar.text s = .text t)) = _
    simp
  have hholds : ∀ es key, Query.holds none es key = true := fun _ _ => rfl
  rw [kept, Value.ofFields, Query.selects_map, hq.level, hq.kind, hholds, hholds, hof]
  by_cases hst : s = t
  · rw [hcell hst, decide_eq_true hst]
    rfl
  · rw [decide_eq_false hst]
    rfl

theorem ofCell_of_none (hq : q.cell = none) (es : List (Scalar × Value)) :
    q.ofCell es = .ok true := by
  rw [Query.ofCell, hq]
  rfl

theorem ne_empty_of_isKey {c : String} (hc : Label.IsKey c) : c ≠ "" := by
  obtain ⟨letters, digits, rfl, hletters, -⟩ := hc
  simp [hletters]

/-- Whether a query for the cell under a label selects a kept event, by the label in its context. -/
theorem Plain.ofCell (h : e.Plain context) (hne : context ≠ []) {c : String} (hc : Label.IsKey c)
    (hq : q.cell = some c) :
    q.ofCell ((sortedFields e.fields).map fun (k, v) => (.text k, v)) = (do
      let found := (Value.field? ((sortedFields context).map fun (k, v) => (.text k, v))
        "cell").getD (.text "")
      return Text.upper (← found.shown.mapError .fault) == c) := by
  have hnormal : Text.upper (Text.trim c) = c := hc.normalize
  have hfilled := ne_empty_of_isKey hc
  rw [Query.ofCell, hq, Query.criterion_some hfilled, Option.map_some, hnormal,
    Query.criterion_some hfilled, h.contextField hne]
  rfl

end Queries

end Event

end Log

end Spreadsheet
