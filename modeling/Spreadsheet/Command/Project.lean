import Spreadsheet.Command.Console

/-!
# Projects on the command line

Commands work on a project, whose settings are read first. A new project has a file of settings and a
sheet to try. A sheet that cannot be read or that exceeds the limits of the project is refused, and
the refusal is kept as an event.
-/

namespace Spreadsheet.Command

variable {m : Type → Type} [Monad m] (yaml : Yaml.Parser)

/-! ### Settings -/

/-- A project that has been opened. -/
structure Opened where
  config : Config
  recorder : Option Log.Recorder

/-- How unusable settings end a command. Of the exceptions of a parser only those of one class are
foreseen. -/
def stopOfDefect (directory : String) : Config.Defect → Stop
  | .raised exception text =>
    if exception = "ValueError" then .refused ("Invalid project config: " ++ text)
    else .crashed (.raised exception text)
  | d => .refused ("Invalid project config: " ++ d.message (Config.path directory))

/-- Opens the project in a directory. -/
def openProject (host : Host m) (directory : String) : Run m Opened := do
  let loaded ← (Config.load yaml host directory : m (Except Config.Defect Config))
  let config ← orStop (stopOfDefect directory) loaded
  let recorder ←
    (config.recorder host directory : m (Except Config.NotStarted (Option Log.Recorder)))
  let crash : Config.NotStarted → Crash
    | .setting e => .setting e
    | .obstacle o => .obstacle o
  return { config, recorder := ← orCrash crash recorder }

/-! ### Sheets -/

/-- Keeps an event of a sheet that is refused, and refuses it. -/
def refuseSheet (host : Host m) (p : Opened) (message : String) (context : Log.Context)
    (code : String) : Run m Unit := do
  let time ← (host.now : m String)
  record host p.recorder
    [{ time, level := .error, kind := .sheetRejected, context, message, code := some code }]
  throw (.refused message)

/-- The crash that the failure to read a sheet is, if it is none that is foreseen. -/
def crashOfLoadError : Sheet.LoadError → Option Crash
  | .notText => some .notText
  | .numeralTooLong digits => some (.fault (.numeralTooLong digits))
  | .raised exception text => some (.raised exception text)
  | _ => none

/-- The sheet in a file. -/
def readSheet (host : Host m) (p : Opened) (path : String) : Run m Sheet := do
  let content ← (host.read? path : m (Option (List UInt8)))
  match Sheet.ofFile yaml path content with
  | .ok s => return s
  | .error e =>
    if let some crash := crashOfLoadError e then throw (.crashed crash)
    refuseSheet host p e.message [(.text "path", .text path)] "sheet_load_failed"
    throw (.refused e.message)

/-- The sheet in a file, if it keeps within the limits of the project. -/
def loadSheet (host : Host m) (p : Opened) (path : String) : Run m Sheet := do
  let s ← readSheet yaml host p path
  let maxRows ← orCrash .setting p.config.maxRows
  let maxCols ← orCrash .setting p.config.maxCols
  if maxRows < s.rows ∨ maxCols < s.cols then
    let message := s!"Sheet {Text.quoted s.name} is {s.rows}x{s.cols}; " ++
      s!"limit is {maxRows}x{maxCols} (max_rows/max_cols in sheetcalc.yaml)"
    refuseSheet host p message
      [(.text "sheet_name", .text s.name), (.text "path", .text path)] "sheet_too_large"
  return s

/-! ### New projects -/

/-- The file of settings of a new project. -/
def configText : String :=
  "# sheetcalc project config\n" ++
  "error_marker: \"#ERR\"\n" ++
  "max_rows: 1000\n" ++
  "max_cols: 200\n" ++
  "display_precision: 10\n" ++
  "logging_enabled: true\n" ++
  "logging_fsync: false\n"

/-- The sheet of a new project. -/
def demoText : String :=
  "# sheetcalc sheet v1\n" ++
  "name: main\n" ++
  "rows: 6\n" ++
  "cols: 3\n" ++
  "cells:\n" ++
  "  A1: Price\n" ++
  "  B1: 10\n" ++
  "  A2: Qty\n" ++
  "  B2: 5\n" ++
  "  A3: Subtotal\n" ++
  "  B3: \"=B1 * B2\"\n" ++
  "  A4: Tax\n" ++
  "  B4: \"=ROUND(B3 * 0.0825, 2)\"\n" ++
  "  A5: Total\n" ++
  "  B5: \"=SUM(B3:B4)\"\n" ++
  "  A6: Large order\n" ++
  "  B6: \"=IF(B5 >= 50, 1, 0)\"\n"

/-- The octets of a text. -/
def octets (s : String) : List UInt8 :=
  Utf8.encode s.toList

/-- Makes a directory of a new project. -/
def makeDirectory (host : Host m) (path : String) : Run m Unit := do
  match ← (host.makeDirectory path : m (Except Obstacle Unit)) with
  | .ok () => return
  | .error .file => throw (.refused s!"[Errno 17] File exists: {Text.quoted path}")
  | .error o => throw (.crashed (.obstacle o))

/-- Writes a file of a new project. -/
def writeFile (host : Host m) (path text : String) : Run m Unit := do
  if !(← (host.write path (octets text) : m Bool)) then throw (.crashed .notFile)

/-- Makes a project in a directory in which there is none. -/
def createProject (host : Host m) (directory : String) : Run m Unit := do
  let directory := Path.normalize directory
  makeDirectory host directory
  let configPath := Config.path directory
  if (← (host.place? configPath : m (Option Place))).isSome then
    throw (.refused s!"Project already exists: {configPath}")
  let sheets := Path.join directory "sheets"
  let sheet := Path.join sheets "main.yaml"
  writeFile host configPath configText
  makeDirectory host sheets
  writeFile host sheet demoText
  makeDirectory host (Log.Recorder.directory directory)
  printLine s!"Created project at {directory}"
  printLine s!"Try:  sheetcalc eval {sheet} --project {directory}"

end Spreadsheet.Command
