import Spreadsheet.Session.Basic

/-!
# Grids

An evaluated sheet as a dense grid of values, row by row. An empty cell shows the empty text, a
failed one a marker.
-/

namespace Spreadsheet

namespace Session

variable {α : Type} [Content α]

section

variable {m : Type → Type} [Monad m] (src : Source α) (read : String → ExceptT Fault m α)

/-- The value that a grid shows for a cell, before failures are marked; formulas are read by
`read`. -/
def shownValueBy (label : String) : ExceptT Fault m α :=
  if Content.isFormula (src.cell label) then read label
  else pure (Content.literalValue (src.cell label))

variable [MonadStateOf (State α) m]

/-- The entry of a grid for a label. -/
def gridEntryBy (marker label : String) : ExceptT Fault m α := do
  let value ← shownValueBy src read label
  let s : State α ← get
  if s.errors.contains label then return Content.ofScalar (.text marker)
  else return if Content.isNull value then Content.ofScalar (.text "") else value

/-- The grid of `rows` by `cols`. -/
def gridBy (marker : String) (rows cols : Nat) : ExceptT Fault m (List (List α)) :=
  (List.range rows).mapM fun row =>
    (List.range cols).mapM fun column => gridEntryBy src read marker (Position.mk row column).label

end

variable (src : Source α)

/-- The value that a grid shows for a cell, before failures are marked. -/
def shownValue (label : String) : RunOver α α :=
  shownValueBy src (read src) label

/-- The entry of a grid for a label. -/
def gridEntry (marker label : String) : RunOver α α :=
  gridEntryBy src (read src) marker label

/-- The grid of a sheet of `rows` by `cols`. -/
def grid (marker : String) (rows cols : Nat) : RunOver α (List (List α)) :=
  gridBy src (read src) marker rows cols

theorem shownValue_of_formula {label : String} (h : src.HasFormula label) :
    shownValue src label = read src label :=
  if_pos h

theorem shownValue_of_literal {label : String} (h : ¬ src.HasFormula label) :
    shownValue src label = pure (Content.literalValue (src.cell label)) :=
  if_neg h

end Session

/-- What a grid shows for a failed cell unless told otherwise. -/
def defaultMarker : String := "#ERR"

/-- The grid of a sheet in a new session. -/
def Sheet.grid (s : Sheet) (marker : String) : Except Fault (List (List Scalar)) :=
  ((Session.grid s.source marker s.rows s.cols).run.run {}).1

end Spreadsheet
