import Spreadsheet.OrderedMap
import Mathlib.Data.List.Basic
import Mathlib.Data.List.Nodup

/-! # Ordered maps without repeated keys

Insertion and removal repeat no key (`nodup_keys_insert`, `nodup_keys_erase`), and a map that
repeats none holds exactly its entries (`get?_eq_some_iff`). -/

namespace Spreadsheet.OrderedMap

variable {κ α : Type} {m : OrderedMap κ α} {key : κ} {value : α}

theorem mem_keys : key ∈ keys m ↔ ∃ a, (key, a) ∈ m := by
  simp [keys]

/-- A map with other values has the same keys. -/
theorem keys_map {β : Type} (m : OrderedMap κ α) (f : α → β) :
    OrderedMap.keys (m.map fun x => (x.1, f x.2)) = m.keys := by
  rw [OrderedMap.keys, List.map_map]
  rfl

variable [DecidableEq κ]

/-- A new key comes last. -/
theorem insert_of_not_mem (h : key ∉ keys m) : insert key value m = m ++ [(key, value)] := by
  induction m with
  | nil => rfl
  | cons entry rest ih =>
    obtain ⟨k, v⟩ := entry
    rw [keys, List.map_cons, List.mem_cons, not_or] at h
    have hk : (k == key) = false := beq_false_of_ne (Ne.symm h.1)
    have hrest : insertBy (· == ·) key value rest = rest ++ [(key, value)] := ih h.2
    simp [insert, insertBy, hk, hrest]

/-- Only the entry inserted is new. -/
theorem mem_insert {x : κ × α} (h : x ∈ insert key value m) : x = (key, value) ∨ x ∈ m := by
  induction m with
  | nil => exact Or.inl (List.mem_singleton.mp h)
  | cons entry rest ih =>
    obtain ⟨k, v⟩ := entry
    rw [insert, insertBy] at h
    split_ifs at h with hk
    · obtain rfl := beq_iff_eq.mp hk
      exact (List.mem_cons.mp h).imp_right (List.mem_cons_of_mem _)
    · rcases List.mem_cons.mp h with rfl | h
      · exact Or.inr List.mem_cons_self
      · exact (ih h).imp_right (List.mem_cons_of_mem _)

theorem nodup_keys_insert (h : (keys m).Nodup) : (keys (insert key value m)).Nodup := by
  rw [keys_insert]
  split_ifs with hkey
  · exact h
  · exact List.nodup_append.mpr ⟨h, List.nodup_singleton key, by
      rintro a ha b hb rfl
      exact hkey (List.mem_singleton.mp hb ▸ ha)⟩

theorem nodup_keys_erase (h : (keys m).Nodup) : (keys (erase m key)).Nodup :=
  h.sublist (List.filter_sublist.map Prod.fst)

/-- The entries of a map that repeats no key are what it holds. -/
theorem get?_eq_some_iff (h : (keys m).Nodup) : get? m key = some value ↔ (key, value) ∈ m := by
  induction m with
  | nil => simp [get?]
  | cons entry rest ih =>
    obtain ⟨k, v⟩ := entry
    rw [keys, List.map_cons, List.nodup_cons] at h
    by_cases hk : key = k
    · subst hk
      have hnot : (key, value) ∉ rest := fun hmem => h.1 (mem_keys.mpr ⟨value, hmem⟩)
      simp [get?, hnot, eq_comm]
    · have hk' : (key == k) = false := beq_false_of_ne hk
      have ih' : List.lookup key rest = some value ↔ (key, value) ∈ rest := ih h.2
      simp [get?, List.lookup_cons, hk', hk, ih']

theorem get?_eq_none_iff : get? m key = none ↔ key ∉ keys m := by
  induction m with
  | nil => simp [get?, keys]
  | cons entry rest ih =>
    obtain ⟨k, v⟩ := entry
    by_cases hk : key = k
    · subst hk; simp [get?, keys]
    · have hk' : (key == k) = false := beq_false_of_ne hk
      have ih' : List.lookup key rest = none ↔ key ∉ List.map Prod.fst rest := ih
      simp [get?, keys, List.lookup_cons, hk', hk, ih']

/-- A map with other values holds these under the same keys. -/
theorem get?_map {β : Type} (m : OrderedMap κ α) (f : α → β) (key : κ) :
    OrderedMap.get? (m.map fun x => (x.1, f x.2)) key = (m.get? key).map f := by
  induction m with
  | nil => rfl
  | cons entry m ih =>
    obtain ⟨k, a⟩ := entry
    unfold OrderedMap.get? at ih ⊢
    rw [List.map_cons, List.lookup_cons, List.lookup_cons, ih]
    cases key == k <;> rfl

end Spreadsheet.OrderedMap
