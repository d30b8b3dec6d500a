import Spreadsheet.Command.Run
import Spreadsheet.Project.Time
import Spreadsheet.Yaml.Reading
import Std.Time.DateTime.Timestamp

/-!
# The program

The command line on the computer at hand. Everything that a command does is in
`Command.outcome`; here are only the files, the clock, the printing and the parser of YAML.
-/

namespace Spreadsheet

/-- Tells whether an action has been possible. -/
def succeeds (action : IO Unit) : IO Bool := do
  try
    action
    return true
  catch _ => return false

/-- The content of a file; `none` if there is no file. -/
def readFile? (path : String) : IO (Option (List UInt8)) := do
  try
    return some (← IO.FS.readBinFile path).toList
  catch _ => return none

/-- The system's number for what goes wrong in reading a directory as a file. -/
def isDirectory : UInt32 := 21

/-- What stands at a path. -/
def placeAt? (path : String) : IO (Option Place) := do
  try
    let _ ← IO.FS.readBinFile path
    return some .file
  catch
    | .inappropriateType _ code _ => return if code = isDirectory then some .directory else none
    | .permissionDenied .. => return some .file
    | _ => return none

/-- Writes octets to a file, opened in a mode. -/
def writeFile (mode : IO.FS.Mode) (path : String) (octets : List UInt8) : IO Unit := do
  let handle ← IO.FS.Handle.mk path mode
  handle.write (ByteArray.mk octets.toArray)
  handle.flush

/-- Makes a directory with those that it lies in. -/
def makeDirectoryAt (path : String) : IO (Except Obstacle Unit) := do
  if ← succeeds (IO.FS.createDirAll path) then return .ok ()
  match ← placeAt? path with
  | some .file => return .error .file
  | _ => return .error .fileAbove

/-- The microseconds from the start of 1970 on. -/
def microseconds : IO Nat := do
  return (← Std.Time.Timestamp.now).toNanosecondsSinceUnixEpoch.val.toNat / 1000

/-- The computer at hand. -/
def thisHost : Host IO where
  place? path := placeAt? (Path.normalize path)
  read? path := readFile? (Path.normalize path)
  write path octets := succeeds (writeFile .write (Path.normalize path) octets)
  append path octets := succeeds (writeFile .append (Path.normalize path) octets)
  makeDirectory path := makeDirectoryAt (Path.normalize path)
  now := return Time.text (← microseconds)
  clock := IO.monoNanosNow

/-- What is printed for a failure that a command does not foresee. -/
def Command.Crash.message : Command.Crash → String
  | .setting _ => "a setting is not an integer"
  | .fault f => f.message
  | .notText => "a sheet file is not UTF-8 text"
  | .raised _ text => text
  | .query _ => "the journal holds something other than events"
  | .obstacle _ => "a file is in the place of a directory"
  | .notFile => "a directory is in the place of a file"

end Spreadsheet

open Spreadsheet in
/-- Runs the command that the arguments ask for. -/
def main (arguments : List String) : IO UInt32 := do
  let o ← Command.outcome Yaml.read thisHost arguments
  IO.print o.out
  IO.eprint o.err
  match o.crash with
  | some crash => IO.eprintln ("Error: " ++ crash.message)
  | none => pure ()
  return o.code
