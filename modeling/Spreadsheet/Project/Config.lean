import Spreadsheet.Path
import Spreadsheet.Text.Utf8
import Spreadsheet.Value.Integer
import Spreadsheet.Value.Shown
import Spreadsheet.Yaml.Parser

/-!
# Project settings

A project may have a file of settings in YAML. Settings that the file does not have keep their
default; a file without content, or with one that is zero, false or empty, changes nothing. A setting
is converted when it is used.
-/

namespace Spreadsheet

/-- The settings of a project by name. -/
abbrev Config := OrderedMap Scalar Value

namespace Config

/-- The name of the file of settings in a project's directory. -/
def fileName : String := "sheetcalc.yaml"

/-- The settings of a project without a file of settings. -/
def defaults : Config := [
  (.text "error_marker", .text "#ERR"),
  (.text "max_rows", .int 1000),
  (.text "max_cols", .int 200),
  (.text "display_precision", .int 10),
  (.text "logging_enabled", .scalar (.bool true)),
  (.text "logging_fsync", .scalar (.bool false)),
  (.text "logging_tail_bytes", .int 2097152)]

/-- Why a file of settings cannot be used. -/
inductive Defect where
  /-- A directory is in the place of the file. -/
  | directory
  | notText (i : Utf8.Invalid)
  | malformed
  | notMapping
  /-- An exception of the parser that does not say that the text is malformed, by its class and its
  text. -/
  | raised (exception text : String)
  deriving Repr

/-- The text of the failure to use the file of settings at a path. -/
def Defect.message (path : String) : Defect → String
  | directory => s!"[Errno 21] Is a directory: {Text.quoted path}"
  | notText i => i.message
  | malformed => path ++ " is not valid YAML"
  | notMapping => path ++ " must contain a mapping"
  | raised _ text => text

/-- The settings with others put in their place. -/
def update (c : Config) (others : List (Scalar × Value)) : Config :=
  others.foldl (fun c (k, v) => OrderedMap.insertBy Scalar.sameKey k v c) c

/-- The settings that the data of a file give. -/
def ofValue (v : Value) : Except Defect Config :=
  match v with
  | .map entries => .ok (defaults.update entries)
  | v => if v.isFilled then .error .notMapping else .ok defaults

/-- The settings of a project, from the content of its file; `none` if there is no such file. -/
def ofFile (yaml : Yaml.Parser) (content : Option (List UInt8)) : Except Defect Config :=
  match content with
  | none => .ok defaults
  | some octets =>
    match Utf8.firstInvalid? octets with
    | some i => .error (.notText i)
    | none =>
      match yaml (Utf8.decodeLossy octets) with
      | .ok data => ofValue data.value
      | .error .malformed => .error .malformed
      | .error (.raised exception text) => .error (.raised exception text)

/-! ### Single settings -/

/-- A setting; nothing if there is none of that name. -/
def get (c : Config) (name : String) : Value :=
  (Value.field? c name).getD .null

/-- The greatest count of rows of a sheet. -/
def maxRows (c : Config) : Except NotInteger Int := (c.get "max_rows").toInteger

/-- The greatest count of columns of a sheet. -/
def maxCols (c : Config) : Except NotInteger Int := (c.get "max_cols").toInteger

/-- The count of significant digits of displayed numbers. -/
def displayPrecision (c : Config) : Except NotInteger Int := (c.get "display_precision").toInteger

/-- What is shown for a failed cell. -/
def errorMarker (c : Config) : Except Fault String := (c.get "error_marker").shown

/-- Are events kept? -/
def logsEvents (c : Config) : Bool := (c.get "logging_enabled").isFilled

/-- How many octets at the end of the log are read; `none` for as many as without a setting. -/
def tailSize (c : Config) : Except NotInteger (Option Int) :=
  match c.get "logging_tail_bytes" with
  | .scalar .null => .ok none
  | v => v.toInteger.map some

end Config

end Spreadsheet
