/-!
# Ordered maps

A finite map as a list of keys with their values, in the order in which the keys were first
inserted. A key that is inserted again keeps its place and takes the new value.

Main statements: `get?_insert_self`, `get?_insert_of_ne` and `keys_insert`.
-/

namespace Spreadsheet

/-- Keys with their values, in the order of first insertion. -/
abbrev OrderedMap (κ α : Type) := List (κ × α)

namespace OrderedMap

variable {κ α : Type}

/-- Inserts a value, where `same` tells which keys are one. -/
def insertBy (same : κ → κ → Bool) (key : κ) (value : α) : OrderedMap κ α → OrderedMap κ α
  | [] => [(key, value)]
  | (k, v) :: rest =>
    if same k key then (k, value) :: rest else (k, v) :: insertBy same key value rest

variable [DecidableEq κ]

/-- Inserts a value, or replaces the one that the key has. -/
def insert (key : κ) (value : α) (m : OrderedMap κ α) : OrderedMap κ α :=
  insertBy (· == ·) key value m

/-- The value of a key. -/
def get? (m : OrderedMap κ α) (key : κ) : Option α :=
  List.lookup key m

/-- Does the map hold the key? -/
def contains (m : OrderedMap κ α) (key : κ) : Bool :=
  m.any (·.1 == key)

/-- Without the key. -/
def erase (m : OrderedMap κ α) (key : κ) : OrderedMap κ α :=
  m.filter (·.1 != key)

/-- The keys in order. -/
def keys (m : OrderedMap κ α) : List κ :=
  m.map Prod.fst

/-- The map of a list of keys and values, later values of a key replacing earlier ones. -/
def ofList (entries : List (κ × α)) : OrderedMap κ α :=
  entries.foldl (fun m (k, v) => insert k v m) []

theorem get?_insert_self (key : κ) (value : α) (m : OrderedMap κ α) :
    get? (insert key value m) key = some value := by
  induction m with
  | nil => simp [insert, insertBy, get?]
  | cons entry rest ih =>
    obtain ⟨k, v⟩ := entry
    by_cases h : k = key
    · simp [insert, insertBy, get?, h]
    · have h' : (key == k) = false := by simpa using Ne.symm h
      simpa [insert, insertBy, get?, h, h', List.lookup_cons] using ih

theorem get?_insert_of_ne {key other : κ} (h : other ≠ key) (value : α) (m : OrderedMap κ α) :
    get? (insert key value m) other = get? m other := by
  induction m with
  | nil =>
    have h' : (other == key) = false := by simpa using h
    simp [insert, insertBy, get?, List.lookup_cons, h']
  | cons entry rest ih =>
    obtain ⟨k, v⟩ := entry
    by_cases hk : k = key
    · subst hk
      have h' : (other == k) = false := by simpa using h
      simp [insert, insertBy, get?, List.lookup_cons, h']
    · by_cases ho : other = k
      · subst ho
        simp [insert, insertBy, get?, hk]
      · have h' : (other == k) = false := by simpa using ho
        simpa [insert, insertBy, get?, hk, List.lookup_cons, h'] using ih

/-- A new key comes last; a key that is there keeps its place. -/
theorem keys_insert (key : κ) (value : α) (m : OrderedMap κ α) :
    keys (insert key value m) = if key ∈ keys m then keys m else keys m ++ [key] := by
  induction m with
  | nil => simp [insert, insertBy, keys]
  | cons entry rest ih =>
    obtain ⟨k, v⟩ := entry
    by_cases h : k = key
    · subst h; simp [insert, insertBy, keys]
    · have ih' : keys (insertBy (· == ·) key value rest)
          = if key ∈ keys rest then keys rest else keys rest ++ [key] := ih
      have : keys ((k, v) :: rest) = k :: keys rest := rfl
      have h' : key ≠ k := Ne.symm h
      simp only [insert, insertBy, beq_iff_eq, h, if_false, this, List.mem_cons, h', false_or]
      rw [show keys ((k, v) :: insertBy (· == ·) key value rest)
        = k :: keys (insertBy (· == ·) key value rest) from rfl, ih']
      split <;> simp

end OrderedMap

end Spreadsheet
