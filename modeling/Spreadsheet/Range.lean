import Spreadsheet.Label

/-!
# Ranges

A range `A1:B3` names a rectangle of cells by two opposite corners, in any order.
-/

namespace Spreadsheet.Range

/-- The texts before and after the only colon. -/
def corners? (cs : List Char) : Option (List Char × List Char) :=
  match cs.dropWhile (· ≠ ':') with
  | _ :: after => if after.contains ':' then none else some (cs.takeWhile (· ≠ ':'), after)
  | [] => none

/-- The positions between two numbers, both included, upwards. -/
def between (a b : Nat) : List Nat :=
  List.range' (min a b) (max a b - min a b + 1)

/-- The positions of the rectangle with two opposite corners, row by row. -/
def rectangle (p q : Position) : List Position :=
  (between p.row q.row).flatMap fun row =>
    (between p.column q.column).map fun column => ⟨row, column⟩

/-- The labels of the cells in a range, row by row. -/
def labels (ref : String) : Except Fault (List String) :=
  match corners? ref.toList with
  | none => .error (.badReference ref .range)
  | some (a, b) =>
    if a.all Text.isBlank || b.all Text.isBlank then .error (.badReference ref .range)
    else do
      let p ← Label.position (String.ofList a)
      let q ← Label.position (String.ofList b)
      return (rectangle p q).map Position.label

end Spreadsheet.Range
