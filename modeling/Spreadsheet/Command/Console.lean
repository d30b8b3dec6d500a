import Spreadsheet.Log.Recorder
import Spreadsheet.Sheet.File

/-!
# Consoles

What a command has printed, and how it ends: with an exit code, by refusing what it was asked for, or
by a failure that it does not foresee.
-/

namespace Spreadsheet.Command

/-- What has been printed so far, and whether the failure to keep an event has been reported. -/
structure Console where
  out : String := ""
  err : String := ""
  warned : Bool := false

/-- A failure that a command does not foresee. -/
inductive Crash where
  /-- A setting that is no integer. -/
  | setting (e : NotInteger)
  | fault (f : Fault)
  /-- A sheet file that is not UTF-8 text. -/
  | notText
  /-- An exception of the parser of YAML, by its class and its text. -/
  | raised (exception text : String)
  | query (e : Log.Query.Failure)
  /-- A directory cannot be made. -/
  | obstacle (o : Obstacle)
  /-- A directory is in the place of a file. -/
  | notFile
  deriving Repr

/-- What ends a command before its end. -/
inductive Stop where
  | exit (code : UInt32)
  | refused (message : String)
  | crashed (cause : Crash)

/-- A computation of a command on a host; what has been printed stays when it stops. -/
abbrev Run (m : Type → Type) := ExceptT Stop (StateT Console m)

/-- What a command came to. -/
structure Outcome where
  code : UInt32
  out : String
  err : String
  crash : Option Crash := none

/-- What a computation comes to. -/
def Outcome.ofResult : Except Stop Unit × Console → Outcome
  | (.ok (), c) => ⟨0, c.out, c.err, none⟩
  | (.error (.exit code), c) => ⟨code, c.out, c.err, none⟩
  | (.error (.refused message), c) => ⟨1, c.out, c.err ++ s!"Error: {message}\n", none⟩
  | (.error (.crashed cause), c) => ⟨1, c.out, c.err, some cause⟩

variable {m : Type → Type} [Monad m]

/-- Prints a text. -/
def print (s : String) : Run m Unit :=
  modify fun c => { c with out := c.out ++ s }

/-- Prints a line. -/
def printLine (s : String) : Run m Unit :=
  print (s ++ "\n")

/-- Prints a line among the errors. -/
def printError (s : String) : Run m Unit :=
  modify fun c => { c with err := c.err ++ s ++ "\n" }

/-- The result of a computation, or what ends the command. -/
def orStop {ε α : Type} (stop : ε → Stop) : Except ε α → Run m α
  | .ok a => pure a
  | .error e => throw (stop e)

/-- The result of a computation, or a crash. -/
def orCrash {ε α : Type} (crash : ε → Crash) : Except ε α → Run m α :=
  orStop fun e => .crashed (crash e)

/-- Reports the failure to keep an event, the first time. -/
def warn (why : Log.NotKept) : Run m Unit := do
  if (← get).warned then return
  modify fun c => { c with warned := true }
  let reason := match why with
    | .fault f => f.message
    | .blocked => "cannot write the journal"
  printError s!"[sheetcalc] logging failed: {reason}"

/-- Keeps events; a failure to do so is reported. -/
def record (host : Host m) (r : Option Log.Recorder) (es : List Log.Event) : Run m Unit := do
  let failures ← (Log.recordAll host r es : m (List Log.NotKept))
  failures.forM warn

end Spreadsheet.Command
