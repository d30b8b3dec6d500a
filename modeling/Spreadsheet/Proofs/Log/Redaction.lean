import Spreadsheet.Log.Redaction
import Mathlib.Tactic.SplitIfs

/-! # What redaction reaches

A place in a value is a way through its maps and lists (`Value.at?`). Redaction keeps the keys and
the places of a context and is done once and for all; it cuts the long texts at all places but those
inside a list that is an item of a list, where it leaves everything as it is (`entries_redacted`). -/

namespace Spreadsheet

/-! ### Places in values -/

/-- A step into a value: to the value of an entry of a map, or to an item of a list. -/
inductive Value.Step where
  | entry (i : Nat)
  | item (i : Nat)

namespace Value

/-- **The value at a place**, if there is one. -/
def at? : List Step → Value → Option Value
  | [], v => some v
  | .entry i :: way, .map es => es[i]?.bind fun x => at? way x.2
  | .item i :: way, .list vs => vs[i]?.bind (at? way)
  | _ :: _, _ => none

mutual

/-- A value with nothing in the place of its scalars: what is left are keys, and places. -/
def outline : Value → Value
  | .scalar _ => .null
  | .map es => .map (outlineEntries es)
  | .list vs => .list (outlineItems vs)

/-- The entries of a map with nothing in the place of the scalars. -/
def outlineEntries : List (Scalar × Value) → List (Scalar × Value)
  | [] => []
  | (k, v) :: rest => (k, outline v) :: outlineEntries rest

/-- The items of a list with nothing in the place of the scalars. -/
def outlineItems : List Value → List Value
  | [] => []
  | v :: rest => outline v :: outlineItems rest

end

end Value

namespace Redaction

open Value

variable {s t : Scalar} {v : Value} {es : List (Scalar × Value)} {way : List Step}

/-! ### Scalars -/

/-- **A scalar and what is kept of it**: of a text with more than 256 characters the first 256 and a
mark, and of any other scalar all. -/
inductive Kept : Scalar → Scalar → Prop
  | long {text : String} (h : 256 < text.length) :
    Kept (.text text) (.text (String.ofList (text.toList.take 256) ++ "...[truncated]"))
  | short {s : Scalar} (h : ∀ text, s = .text text → text.length ≤ 256) : Kept s s

theorem kept_iff : Kept s t ↔ t = scalar s := by
  have hlimit : textLimit = 256 := rfl
  constructor
  · rintro (⟨h⟩ | ⟨h⟩)
    · rw [scalar, cut, if_neg (by omega)]
      rfl
    · cases s with
      | text text =>
        have hshort := h text rfl
        rw [scalar, cut, if_pos (by omega)]
      | _ => rfl
  · rintro rfl
    cases s with
    | text text =>
      rw [scalar, cut]
      split_ifs with h
      · exact .short fun _ htext => by cases htext; exact h
      · exact .long (by omega)
    | _ => exact .short fun _ htext => by cases htext

theorem scalar_scalar (s : Scalar) : scalar (scalar s) = scalar s := by
  cases s with
  | text text => exact congrArg Scalar.text (cut_cut text)
  | _ => rfl

/-! ### Items of lists -/

/-- An item of a list, with the texts in it cut; a list stays. -/
def item : Value → Value
  | .list vs => .list vs
  | v => value v

theorem items_eq_map (vs : List Value) : items vs = vs.map item := by
  induction vs with
  | nil => rfl
  | cons v vs ih => cases v <;> rw [items, ih] <;> rfl

theorem entries_eq_map (es : List (Scalar × Value)) :
    entries es = es.map fun x => (x.1, value x.2) := by
  induction es with
  | nil => rfl
  | cons x es ih => rw [entries, ih]; rfl

/-! ### The whole of a context -/

mutual

theorem outline_value (v : Value) : outline (value v) = outline v := by
  cases v with
  | scalar s => rfl
  | map es => exact congrArg Value.map (outline_entries es)
  | list vs => exact congrArg Value.list (outline_items vs)

theorem outline_entries (es : List (Scalar × Value)) :
    outlineEntries (entries es) = outlineEntries es := by
  cases es with
  | nil => rfl
  | cons x es => rw [entries, outlineEntries, outlineEntries, outline_value, outline_entries es]

theorem outline_items (vs : List Value) : outlineItems (items vs) = outlineItems vs := by
  cases vs with
  | nil => rfl
  | cons v vs =>
    cases v with
    | scalar s => rw [items, outlineItems, outlineItems, outline_items vs]; rfl
    | map es =>
      rw [items, outlineItems, outlineItems, outline_items vs]
      exact congrArg (· :: _) (congrArg Value.map (outline_entries es))
    | list items => rw [Redaction.items, outlineItems, outlineItems, outline_items vs]

end

mutual

theorem value_value (v : Value) : value (value v) = value v := by
  cases v with
  | scalar s => exact congrArg Value.scalar (scalar_scalar s)
  | map es => exact congrArg Value.map (entries_entries es)
  | list vs => exact congrArg Value.list (items_items vs)

theorem entries_entries (es : List (Scalar × Value)) : entries (entries es) = entries es := by
  cases es with
  | nil => rfl
  | cons x es => rw [entries, entries, value_value, entries_entries es]

theorem items_items (vs : List Value) : items (items vs) = items vs := by
  cases vs with
  | nil => rfl
  | cons v vs =>
    cases v with
    | scalar s => rw [items, items, scalar_scalar, items_items vs]
    | map es => rw [items, items, entries_entries es, items_items vs]
    | list vs' => rw [items, items, items_items vs]

end

/-! ### Scalars at their places -/

/-- **Does the way go on from an item of a list to an item of that?** -/
def inNestedList : List Step → Bool
  | .item _ :: .item _ :: _ => true
  | _ :: way => inNestedList way
  | [] => false

/-- What redaction makes of the scalar at a place. -/
def scalarAt (way : List Step) (s : Scalar) : Scalar :=
  if inNestedList way then s else scalar s

theorem at?_entry_value (i : Nat) (way : List Step) (es : List (Scalar × Value)) :
    at? (.entry i :: way) (value (.map es)) = es[i]?.bind fun x => at? way (value x.2) := by
  rw [value, at?, entries_eq_map, List.getElem?_map, Option.bind_map]
  rfl

theorem at?_item_value (i : Nat) (way : List Step) (vs : List Value) :
    at? (.item i :: way) (value (.list vs)) = vs[i]?.bind fun v => at? way (item v) := by
  rw [value, at?, items_eq_map, List.getElem?_map, Option.bind_map]
  rfl

theorem at?_item_iff {i : Nat} (h : at? way (value v) = some (.scalar s) ↔
      ∃ s₀, at? way v = some (.scalar s₀) ∧ s = scalarAt way s₀) :
    at? way (item v) = some (.scalar s) ↔
      ∃ s₀, at? way v = some (.scalar s₀) ∧ s = scalarAt (.item i :: way) s₀ := by
  match way, v with
  | [], .scalar _ | .entry _ :: _, .scalar _ | [], .map _ | .entry _ :: _, .map _ => exact h
  | [], .list _ | .entry _ :: _, .list _ => exact iff_of_false (by simp [item, at?]) (by simp [at?])
  | .item _ :: _, .scalar _ | .item _ :: _, .map _ =>
    exact iff_of_false (by simp [item, value, at?]) (by simp [at?])
  | .item j :: rest, .list vs =>
    have hsame : ∀ s₀, scalarAt (.item i :: .item j :: rest) s₀ = s₀ := fun _ => rfl
    simp [item, hsame]

/-- **The scalars of a redacted value**, place by place. -/
theorem at?_value_iff : at? way (value v) = some (.scalar s) ↔
    ∃ s₀, at? way v = some (.scalar s₀) ∧ s = scalarAt way s₀ := by
  induction way generalizing v with
  | nil =>
    cases v with
    | scalar s₀ => simp [at?, value, scalarAt, inNestedList, eq_comm]
    | map es => simp [at?, value]
    | list vs => simp [at?, value]
  | cons step way ih =>
    cases step with
    | entry i =>
      cases v with
      | map es =>
        rw [at?_entry_value, at?]
        cases es[i]? with
        | none => simp
        | some x => exact ih
      | scalar s₀ => exact iff_of_false (by simp [value, at?]) (by simp [at?])
      | list vs => exact iff_of_false (by simp [value, at?]) (by simp [at?])
    | item i =>
      cases v with
      | list vs =>
        rw [at?_item_value, at?]
        cases vs[i]? with
        | none => simp
        | some v => exact at?_item_iff ih
      | scalar s₀ => exact iff_of_false (by simp [value, at?]) (by simp [at?])
      | map es => exact iff_of_false (by simp [value, at?]) (by simp [at?])

/-! ### Contexts -/

/-- **Redaction of a context** keeps the keys and the places, and is done once and for all. Places
inside a list that is an item of a list are left as they are; at all others the long texts are cut.
So nothing is left uncut exactly if all texts at such places are short or have been cut. -/
theorem entries_redacted (es : List (Scalar × Value)) :
    (∀ way s, at? way (.map (entries es)) = some (.scalar s) ↔
      ∃ s₀, at? way (.map es) = some (.scalar s₀) ∧
        if inNestedList way then s = s₀ else Kept s₀ s) ∧
    outlineEntries (entries es) = outlineEntries es ∧ entries (entries es) = entries es ∧
    ((∀ way s₀ s, at? way (.map es) = some (.scalar s₀) →
        at? way (.map (entries es)) = some (.scalar s) → Kept s₀ s) ↔
      ∀ way s, inNestedList way → at? way (.map es) = some (.scalar s) → Kept s s) := by
  have hplaces : ∀ way s, at? way (.map (entries es)) = some (.scalar s) ↔
      ∃ s₀, at? way (.map es) = some (.scalar s₀) ∧ s = scalarAt way s₀ :=
    fun way s => at?_value_iff (v := .map es)
  refine ⟨fun way s => ?_, outline_entries es, entries_entries es, ?_, ?_⟩
  · rw [hplaces]
    refine exists_congr fun s₀ => and_congr_right fun _ => ?_
    unfold scalarAt
    split_ifs
    · rfl
    · exact kept_iff.symm
  · intro h way s hnested hs
    exact h way s s hs ((hplaces way s).mpr ⟨s, hs, by rw [scalarAt, if_pos hnested]⟩)
  · intro h way s₀ s hs₀ hs
    obtain ⟨s₁, hs₁, rfl⟩ := (hplaces way s).mp hs
    obtain rfl : s₀ = s₁ := Value.scalar.inj (Option.some.inj (hs₀.symm.trans hs₁))
    unfold scalarAt
    split_ifs with hnested
    · exact h way s₀ hnested hs₀
    · exact kept_iff.mpr rfl

/-- **A text in a list of lists** is kept at any length. -/
theorem not_cut_nested : ¬ ∀ (es : List (Scalar × Value)) (way : List Step) (s₀ s : Scalar),
    at? way (.map es) = some (.scalar s₀) → at? way (.map (entries es)) = some (.scalar s) →
      Kept s₀ s := by
  intro h
  obtain ⟨text, htext⟩ : ∃ text, text = String.ofList (List.replicate 257 'x') := ⟨_, rfl⟩
  have hlength : text.length = 257 := by rw [htext, String.length_ofList, List.length_replicate]
  have hkept := kept_iff.mp <| h [(.text "a", .list [.list [.text text]])]
    [.entry 0, .item 0, .item 0] (.text text) (.text text) rfl rfl
  have hcut : text = cut text := Scalar.text.inj hkept
  have hlong : (cut text).length = 270 := by
    rw [cut, if_neg (by rw [hlength]; decide), String.length_append, String.length_ofList,
      List.length_take, String.length_toList, hlength]
    rfl
  rw [← hcut, hlength] at hlong
  cases hlong

end Redaction

end Spreadsheet
