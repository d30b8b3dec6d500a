import Spreadsheet.Session.Basic

/-!
# Sessions that watch the formulas they run

Two sessions in which something other may happen than in the usual one. The first looks, before it
runs a formula, whether all cells that the formula reads in any case are settled, and does something
other if they are not (`readPrepared`). In the second a running formula starts no formula: it does
something other when it comes upon one that has not been started (`readAlone`).
-/

namespace Spreadsheet.Session

variable (src : Source)

/-! ### Formulas that are prepared -/

/-- Are the cells settled that a formula reads in any case? -/
def isPrepared (s : State) (formula : String) : Bool :=
  match dependencies formula with
  | .ok labels => labels.all (isSettled src s)
  | .error _ => false

/-- Runs the formula of a cell if it is prepared, and else does `other`. -/
def whenPrepared (other evaluate : String → String → StateM State Scalar) (key formula : String) :
    StateM State Scalar := do
  if isPrepared src (← get) formula then evaluate key formula else other key formula

/-- Computes a cell with a formula that has not been started, where at most the given number of
formulas nest and formulas that are not prepared do `other`. -/
def startPrepared (other : String → String → StateM State Scalar) :
    Nat → String → String → Run Scalar :=
  startBy src (fun read => whenPrepared src other (evaluateCell read)) (walkBound src)

/-- Reads a cell, where formulas that are not prepared do `other`. -/
def readPrepared (other : String → String → StateM State Scalar) (label : String) : Run Scalar :=
  look src (startPrepared src other src.formulas.length) label

/-! ### Formulas that start no others -/

/-- Reads a cell, where a running formula that comes upon one that has not been started does
`other`. -/
def readAlone (other : String → String → Run Scalar) (label : String) : Run Scalar :=
  look src (compute src (walkBound src) (evaluateCell (look src other))) label

end Spreadsheet.Session
