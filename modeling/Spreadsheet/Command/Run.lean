import Spreadsheet.Command.Arguments
import Spreadsheet.Command.Project
import Spreadsheet.Csv
import Spreadsheet.Grid
import Spreadsheet.Kpi
import Spreadsheet.ValueRef

/-!
# Running commands

What each command does and prints. The commands that evaluate a sheet keep a report of the session
in the log of the project.
-/

namespace Spreadsheet.Command

variable {m : Type → Type} [Monad m] (yaml : Yaml.Parser)

/-! ### Sessions -/

/-- The messages of the failed cells of a session. -/
def messages (s : Session.State) : OrderedMap String String :=
  s.errors.map fun (label, e) => (label, e.message)

/-- Reads cells by labels in any spelling, which have to be well formed. The values are kept under
the labels in their usual spelling. -/
def readCells (src : Source) (labels : List String) :
    Session.Run (OrderedMap String Scalar) :=
  labels.foldlM (fun values label => do
    let _ ← pureResult (Label.position label)
    return values.insert (Label.normalize label) (← Session.read src label)) []

/-- Runs a session from its start. A malformed label is refused. -/
def runSession {α : Type} (x : Session.Run α) : Run m (α × Session.State) :=
  match x.run.run {} with
  | (.ok a, s) => pure (a, s)
  | (.error f@(.badReference ..), _) => throw (.refused f.message)
  | (.error f, _) => throw (.crashed (.fault f))

/-- Prints the messages of failed cells, one a line, in the order of the labels. -/
def printMessages (printOne : String → Run m Unit) (start : String)
    (errors : OrderedMap String String) : Run m Unit :=
  (Log.Report.sortedErrors errors).forM fun (label, message) =>
    printOne s!"{start}{label}: {message}"

/-- Prints how many cells failed, and why, among the errors. -/
def printFailures (errors : OrderedMap String String) : Run m Unit := do
  if errors.isEmpty then return
  printError s!"{errors.length} cell error(s):"
  printMessages printError "  " errors

/-- Prints a value in JSON over several lines. -/
def printJson (v : Value) : Run m Unit := do
  printLine (← orCrash .fault (Json.pretty v))

/-- A map from texts to texts as a value. -/
def textsValue (texts : OrderedMap String String) : Value :=
  .ofFields (texts.map fun (k, s) => (k, .text s))

/-! ### Tables -/

/-- A table as text: columns of equal width with two spaces between them. -/
def tableText (t : Table) : String :=
  let width (column : String × List String) : Nat :=
    column.2.foldl (fun n s => max n s.length) column.1.length
  let widths := t.columns.map width
  let line (fields : List String) : String :=
    let padded := (fields.zip widths).map fun (s, n) =>
      s ++ String.ofList (List.replicate (n - s.length) ' ')
    "  ".intercalate padded
  "\n".intercalate ((t.headers :: t.rows).map line)

/-! ### Evaluating a sheet -/

/-- What a session has read: single cells by their labels, or the grid. -/
inductive Reading where
  | cells (values : OrderedMap String Scalar)
  | grid (rows : List (List Scalar))

/-- What a session has read, as data. -/
def Reading.field : Reading → String × Value
  | cells values => ("values", .ofFields (values.map fun (label, v) => (label, .scalar v)))
  | grid rows => ("matrix", .list (rows.map fun row => .list (row.map Value.scalar)))

/-- Reads the given cells of a sheet, or its grid if none are given. -/
def readSession (config : Config) (s : Sheet) (labels : List String) :
    Run m (Reading × Session.State) := do
  if labels.isEmpty then
    let marker ← orCrash .fault config.errorMarker
    let (rows, state) ← runSession (Session.grid s.source marker s.rows s.cols)
    return (.grid rows, state)
  else
    let (values, state) ← runSession (readCells s.source labels)
    return (.cells values, state)

/-- Prints single cells, one a line. -/
def printCells (config : Config) (precision : Int) (format : Format)
    (errors : OrderedMap String String) (values : OrderedMap String Scalar) : Run m Unit := do
  let marker ← orCrash .fault config.errorMarker
  values.forM fun (label, v) => do
    let shown ← if errors.contains label then pure marker
      else orCrash .fault ((Value.scalar v).display precision)
    printLine (if format = .csv then s!"{label},{shown}" else s!"{label} = {shown}")

/-- Prints a grid. -/
def printGrid (precision : Int) (format : Format) (rows : List (List Scalar)) : Run m Unit := do
  let t ← orCrash .fault (Table.ofGrid precision (rows.map fun row => row.map Value.scalar))
  if format = .csv then print (Csv.ofTable t) else printLine (tableText t)

/-- How many milliseconds lie between two moments. -/
def milliseconds (start stop : Nat) : Number :=
  .float (Binary64.ofRatio false (stop - start) 1000000)

/-- Prints the values of a sheet. -/
def printValues (host : Host m) (path project : String) (labels : List String) (format : Format) :
    Run m Unit := do
  let p ← openProject yaml host project
  let s ← loadSheet yaml host p path
  let precision ← orCrash .setting p.config.displayPrecision
  let start ← (host.clock : m Nat)
  let (reading, state) ← readSession p.config s labels
  let stop ← (host.clock : m Nat)
  let errors := messages state
  let report : Log.Report :=
    { sheet := s.name, errors, formulas := s.formulas.length
      duration := some (milliseconds start stop) }
  record host p.recorder (report.events (← (host.now : m String)))
  if format = .json then
    printJson (.ofFields [("sheet", .text s.name), ("errors", textsValue errors), reading.field])
  else
    match reading with
    | .cells values => printCells p.config precision format errors values
    | .grid rows => printGrid precision format rows
    printFailures errors

/-! ### Checking a sheet -/

/-- The references of a formula; none if it has no tree. -/
def references (formula : Scalar) : List Reference :=
  match formula with
  | .text s =>
    match Formula.ofText s with
    | .ok tree => tree.references
    | .error _ => []
  | _ => []

/-- What a check says of a formula cell. -/
def checkEntry (s : Sheet) (errors : OrderedMap String String) (label : String) (v : Scalar) :
    Value :=
  let formula := (s.cells.get? label).getD .null
  .ofFields [
    ("cell", .text label),
    ("formula", .scalar formula),
    ("value", .scalar v),
    ("refs", .list ((references formula).map fun r => .text r.text)),
    ("error", (errors.get? label).elim .null .text)]

/-- Prints which cells of a sheet fail; ends with code 2 if any does. -/
def printCheck (host : Host m) (path project : String) (json : Bool) : Run m Unit := do
  let p ← openProject yaml host project
  let s ← loadSheet yaml host p path
  let (values, state) ← runSession (Session.readAll s.source)
  let errors := messages state
  let report : Log.Report := { sheet := s.name, errors, formulas := values.length }
  record host p.recorder (report.events (← (host.now : m String)))
  if json then
    printJson (.ofFields [
      ("sheet", .text s.name),
      ("status", .text (if errors.isEmpty then "pass" else "fail")),
      ("cells", .list (values.map fun (label, v) => checkEntry s errors label v))])
  else
    let status := if errors.isEmpty then "PASS" else "FAIL"
    printLine s!"Check sheet: {s.name}"
    printLine s!"Formula cells: {values.length}"
    printLine s!"Status: {status}"
    if errors.isEmpty then printLine "  All formulas evaluated cleanly."
    else printMessages printLine "  FAIL: " errors
  if !errors.isEmpty then throw (.exit 2)

/-! ### Key figures -/

/-- Keeps and prints that a reference names nothing; ends with code 2. -/
def unresolved (host : Host m) (p : Opened) (ref reason : String) : Run m Unit := do
  let message := s!"Could not resolve {ref}: {reason}"
  let time ← (host.now : m String)
  record host p.recorder [
    { time, level := .warning, kind := .valueRefUnresolved, message
      context := [(.text "value_ref", .text ref)], code := some "value_ref_invalid" }]
  printError message
  throw (.exit 2)

/-- Prints the value that a reference names. -/
def printKpi (host : Host m) (ref : String) (paths : List String) (project : String) (raw : Bool) :
    Run m Unit := do
  let p ← openProject yaml host project
  let sheets ← paths.mapM (loadSheet yaml host p)
  match ValueRef.ofText? ref with
  | none => unresolved host p ref "malformed reference"
  | some r =>
    match ← orCrash .fault (r.resolve? sheets) with
    | none => unresolved host p ref s!"no sheet named {Text.quoted r.sheetName}"
    | some v =>
      let time ← (host.now : m String)
      record host p.recorder [
        { time, level := .info, kind := .valueRefResolved, message := "Resolved " ++ r.text
          context := [
            (.text "value_ref", .text r.text),
            (.text "sheet_name", .text r.sheetName),
            (.text "cell", .text r.cell)] }]
      if raw then
        let precision ← orCrash .setting p.config.displayPrecision
        printLine (← orCrash .fault ((Value.scalar v).display precision))
      else printLine (← orCrash .fault (Value.scalar v).kpi)

/-! ### Events -/

/-- The text under a key of an event; nothing if the event does not have the key. -/
def eventText (event : List (Scalar × Value)) (key : String) : Run m String :=
  match Value.field? event key with
  | none => pure ""
  | some v => orCrash .fault v.shown

/-- Prints an event. -/
def printEvent (v : Value) : Run m Unit := do
  let event ← orCrash .query (Log.Query.entries v)
  let time ← eventText event "ts"
  let level ← match Value.field? event "level" with
    | none => pure ""
    | some (.scalar (.text s)) => pure (Text.upper s)
    | some _ => throw (.crashed (.query .notMapping))
  let kind ← eventText event "event_type"
  let message ← eventText event "message"
  let padding := String.ofList (List.replicate (7 - level.length) ' ')
  let line := s!"[{time}] {level}{padding} {kind}: {message}"
  match (Value.field? event "error_code").filter Value.isFilled with
  | none => printLine line
  | some v =>
    let code ← orCrash .fault v.shown
    printLine s!"{line}  ({code})"

/-- Prints the events of a project that answer a query. -/
def printEvents (host : Host m) (directory : String) (q : Log.Query) : Run m Unit := do
  let started ← (Log.Recorder.start host directory none : m (Except Obstacle Log.Recorder))
  let r ← orCrash .obstacle started
  match ← (r.ask host q : m (Option (Except Log.Query.Failure (List Value)))) with
  | none => throw (.crashed .notFile)
  | some answer =>
    let found ← orCrash .query answer
    if found.isEmpty then printLine "No events found." else found.forM printEvent

/-! ### All commands -/

/-- Refuses a path at which something else stands than what is needed. -/
def need (host : Host m) (argument path : String) (place : Place) : Run m Unit := do
  let what := if place = .file then "File" else "Directory"
  let other := if place = .file then "directory" else "file"
  let refuse (reason : String) : Run m Unit := do
    printError s!"Error: Invalid value for {argument}: {what} {Text.quoted path} {reason}."
    throw (.exit 2)
  match ← (host.place? path : m (Option Place)) with
  | none => refuse "does not exist"
  | some p => if p = place then return else refuse s!"is a {other}"

/-- What the program prints for its version. -/
def versionText : String := "sheetcalc, version 0.3.0"

/-- Runs a command. -/
def run (host : Host m) : Command → Run m Unit
  | .version => printLine versionText
  | .create directory => createProject host directory
  | .eval path project labels format => do
    need host "'SHEET_FILE'" path .file
    need host "'--project'" project .directory
    printValues yaml host path project labels format
  | .check path project json => do
    need host "'SHEET_FILE'" path .file
    need host "'--project'" project .directory
    printCheck yaml host path project json
  | .kpi ref paths project raw => do
    paths.forM fun path => need host "'SHEET_FILES...'" path .file
    need host "'--project'" project .directory
    printKpi yaml host ref paths project raw
  | .events directory query => do
    need host "'DIRECTORY'" directory .directory
    printEvents host directory query

/-- What arguments come to on a host. -/
def outcome (host : Host m) (arguments : List String) : m Outcome := do
  match ofArguments arguments with
  | .error misuse => return ⟨2, "", misuse.text, none⟩
  | .ok command => return Outcome.ofResult (← ((run yaml host command).run).run {})

end Spreadsheet.Command
