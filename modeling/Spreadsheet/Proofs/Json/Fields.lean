import Spreadsheet.Proofs.Json.RoundTrip

/-! # Fields of maps from texts

Where no text is a key twice, each field is found under its key (`field?_of_mem`), also when the keys
are in order (`field?_sorted`). -/

namespace Spreadsheet

namespace Json

variable {fields : List (String × Value)} {k : String} {v : Value}

theorem sameKey_text (a b : String) : (Scalar.text a).sameKey (.text b) = decide (a = b) := by
  simp [Scalar.sameKey, Scalar.number?]

theorem field?_cons (a : String) (w : Value) (fields : List (String × Value)) (k : String) :
    Value.field? (((a, w) :: fields).map fun (k, v) => (.text k, v)) k = if a = k then some w
      else Value.field? (fields.map fun (k, v) => (.text k, v)) k := by
  simp only [Value.field?, List.map_cons, List.find?_cons, sameKey_text]
  by_cases h : a = k <;> simp [h]

theorem field?_of_mem (hkeys : (fields.map Prod.fst).Nodup) (h : (k, v) ∈ fields) :
    Value.field? (fields.map fun (k, v) => (.text k, v)) k = some v := by
  induction fields with
  | nil => cases h
  | cons x fields ih =>
    obtain ⟨hnew, hrest⟩ := List.nodup_cons.mp hkeys
    rw [field?_cons]
    rcases List.mem_cons.mp h with rfl | hmem
    · exact if_pos rfl
    · have hne : x.1 ≠ k := fun heq => hnew (heq ▸ List.mem_map.mpr ⟨_, hmem, rfl⟩)
      rw [if_neg hne]
      exact ih hrest hmem

theorem field?_of_not_mem (h : k ∉ fields.map Prod.fst) :
    Value.field? (fields.map fun (k, v) => (.text k, v)) k = none := by
  induction fields with
  | nil => rfl
  | cons x fields ih =>
    rw [List.map_cons, List.mem_cons, not_or] at h
    rw [field?_cons, if_neg (Ne.symm h.1)]
    exact ih h.2

/-- **A field** of a map whose keys have been put in order. -/
theorem field?_sorted (hkeys : (fields.map Prod.fst).Nodup) (h : (k, v) ∈ fields) :
    Value.field? ((sortedFields fields).map fun (k, v) => (.text k, v)) k = some (sorted v) := by
  refine field?_of_mem (nodup_sortedFields hkeys) (List.mem_mergeSort.mpr ?_)
  exact List.mem_map.mpr ⟨(k, v), h, rfl⟩

theorem field?_sorted_of_not_mem (h : k ∉ fields.map Prod.fst) :
    Value.field? ((sortedFields fields).map fun (k, v) => (.text k, v)) k = none :=
  field?_of_not_mem fun hmem => h ((keys_sortedFields fields).mem_iff.mp hmem)

end Json

end Spreadsheet
