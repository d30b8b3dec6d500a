import Spreadsheet.Session.Basic

/-!
# Value references

A value reference names one cell of one sheet among several: `sheet:main!B3`. It is resolved in a
new session on the first sheet of that name.

Main statement: `split?_scheme_append` (every name without an exclamation mark and every label are
read back from the text that holds them).
-/

namespace Spreadsheet

/-- A cell of the sheet with the given name. -/
structure ValueRef where
  sheetName : String
  cell : String
  deriving DecidableEq, Repr

namespace ValueRef

/-- What stands before the name of the sheet. -/
def scheme : List Char := "sheet:".toList

/-- The text of a reference. -/
def text (r : ValueRef) : String :=
  s!"sheet:{r.sheetName}!{r.cell}"

/-- The name of the sheet and the cell that a text without blanks around it holds. The name is not
empty and ends at the first exclamation mark; the rest has to be a label. -/
def split? (cs : List Char) : Option (List Char × List Char) :=
  let rest := cs.drop scheme.length
  let name := rest.takeWhile (· ≠ '!')
  let cell := (rest.dropWhile (· ≠ '!')).drop 1
  if scheme.isPrefixOf cs && !name.isEmpty && (Label.split? cell).isSome then some (name, cell)
  else none

/-- The reference that a text holds, with blanks around it or without. -/
def ofText? (s : String) : Option ValueRef :=
  (split? (Text.trimList s.toList)).map fun (name, cell) =>
    ⟨String.ofList name, String.ofList (Text.upperList cell)⟩

/-- The sheet that a reference names: the first of that name. -/
def sheet? (r : ValueRef) (sheets : List Sheet) : Option Sheet :=
  sheets.find? (·.name == r.sheetName)

/-- The value of the cell that a reference names; `none` if there is no such sheet. -/
def resolve? (r : ValueRef) (sheets : List Sheet) : Except Fault (Option Scalar) :=
  match r.sheet? sheets with
  | none => .ok none
  | some s => (((Session.read s.source r.cell).run.run {}).1).map some

/-- The value of the cell that a text refers to; `none` if it holds no reference or there is no such
sheet. -/
def resolveText? (ref : String) (sheets : List Sheet) : Except Fault (Option Scalar) :=
  match ofText? ref with
  | none => .ok none
  | some r => r.resolve? sheets

theorem split?_scheme_append {name cell : List Char} (hne : name ≠ []) (hname : '!' ∉ name)
    (hcell : (Label.split? cell).isSome) :
    split? (scheme ++ name ++ '!' :: cell) = some (name, cell) := by
  have hall : ∀ c ∈ name, decide (c ≠ '!') = true := fun c hc =>
    decide_eq_true fun h => hname (h ▸ hc)
  have htake : (name ++ '!' :: cell).takeWhile (fun c => decide (c ≠ '!')) = name := by
    rw [List.takeWhile_append_of_pos hall]; simp
  have hdrop : (name ++ '!' :: cell).dropWhile (fun c => decide (c ≠ '!')) = '!' :: cell := by
    rw [List.dropWhile_append_of_pos hall]; simp
  have hprefix : scheme.isPrefixOf (scheme ++ (name ++ '!' :: cell)) = true := by simp
  simp only [split?, List.append_assoc, hprefix, List.drop_left, htake, hdrop]
  simp [hne, hcell]

end ValueRef

end Spreadsheet
