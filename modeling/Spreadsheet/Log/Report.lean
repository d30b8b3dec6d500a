import Spreadsheet.Log.Event
import Spreadsheet.OrderedMap
import Spreadsheet.Session.Basic

/-!
# Reports

What the log keeps of a session: a warning for each failed cell, in the order of the labels, and a
summary after them.
-/

namespace Spreadsheet

/-- The number rounded to a count of places after the point; integers are left as they are. -/
def Number.roundPlaces (places : Nat) : Number → Number
  | .float (.finite negative code) =>
    let n := Decimal.roundAt (Binary64.units code) Binary64.unit (-places)
    .float (Binary64.ofDecimal negative n (-places))
  | n => n

namespace Log

/-- A session that is over: the sheet's name, the messages of the failed cells, the count of the
formula cells, and how many milliseconds it took, if that was measured. -/
structure Report where
  sheet : String
  errors : OrderedMap String String
  formulas : Int
  duration : Option Number := none

namespace Report

/-- The failed cells in the order of their labels. -/
def sortedErrors (errors : OrderedMap String String) : List (String × String) :=
  errors.mergeSort fun a b => decide (a.1 ≤ b.1)

/-- The event of a failed cell. -/
def cellEvent (time sheet cell message : String) : Event :=
  let context : Context := [(.text "sheet_name", .text sheet), (.text "cell", .text cell)]
  if message = Session.CellError.cycle.message then
    { time, level := .warning, kind := .cellCycle, context
      message := s!"Circular reference at {sheet}!{cell}"
      code := some "formula_cycle" }
  else
    { time, level := .warning, kind := .cellError, context, message
      code := some "formula_eval_error" }

/-- The event of the whole session. -/
def summary (r : Report) (time : String) : Event :=
  let duration := r.duration.map fun d =>
    (Scalar.text "duration_ms", Value.scalar (.number (d.roundPlaces 3)))
  { time, level := .info, kind := .sheetEvaluated
    context := [
      (.text "sheet_name", .text r.sheet),
      (.text "formula_cells", .int r.formulas),
      (.text "error_cells", .int r.errors.length)] ++ duration.toList
    message :=
      s!"Evaluated {r.formulas} formula cell(s) in {Text.quoted r.sheet}, " ++
        s!"{r.errors.length} error(s)" }

/-- All the events of a session. -/
def events (r : Report) (time : String) : List Event :=
  (sortedErrors r.errors).map (fun (cell, message) => cellEvent time r.sheet cell message) ++
    [r.summary time]

end Report

end Log

end Spreadsheet
