import Spreadsheet.Session.Basic

/-!
# Sessions that note what they run

A session that works as any other and notes, in order, each cell whose formula it sets out to run.
The bounds on the steps of a walk and on nesting are arguments.
-/

namespace Spreadsheet.Session

/-- A computation in a session with the cells noted so far. -/
abbrev Noting := StateT (List String) (StateM State)

/-- So it is if it may end with a fault, which leaves what has been noted and found in place. -/
abbrev NotedRun := ExceptT Fault Noting

/-- Notes a cell that has been marked, runs its formula, and remembers its value. -/
def evaluateNoted (read : String → NotedRun Scalar) (key formula : String) : Noting Scalar := do
  modify (· ++ [key])
  evaluateCell read key formula

variable (src : Source)

/-- Computes a cell with a formula that has not been started. -/
def startNoted (steps : Nat) : Nat → String → String → NotedRun Scalar :=
  startBy src evaluateNoted steps

/-- Reads a cell, where walks take at most `steps` steps and `depth` formulas nest. -/
def readNoted (steps depth : Nat) (label : String) : NotedRun Scalar :=
  look src (startNoted src steps depth) label

end Spreadsheet.Session
