import Spreadsheet.Json.Reading
import Spreadsheet.Path
import Spreadsheet.Sheet.Wire
import Spreadsheet.Text.Utf8
import Spreadsheet.Yaml.Parser

/-!
# Sheet files

A sheet is kept in a file of UTF-8 text: in JSON if the file's name ends in `.json`, in any case, and
in YAML otherwise. JSON is read by `Json.read`, YAML by whatever parser is at hand.
-/

namespace Spreadsheet.Sheet

/-- Does the name of a file say that it holds JSON? -/
def isJsonPath (path : String) : Bool :=
  (Path.suffix path).map Char.toLower = ".json".toList

/-- The sheet that a text in JSON holds. -/
def ofJson (path : String) (cs : List Char) : Except LoadError Sheet :=
  match Json.read cs with
  | .ok data => ofWire data
  | .error .malformed => .error (.unparseable (Path.normalize path))
  | .error (.numeralTooLong digits) => .error (.numeralTooLong digits)

/-- The sheet that the data of a parser describe. -/
def ofData : Yaml.Data → Except LoadError Sheet
  | .map entries => ofWire (Yaml.Data.map entries).value
  | data => .error (.notMapping data.kind)

section

variable (yaml : Yaml.Parser)

/-- The sheet that a text in YAML holds. -/
def ofYaml (path : String) (cs : List Char) : Except LoadError Sheet :=
  match yaml cs with
  | .ok data => ofData data
  | .error .malformed => .error (.unparseable (Path.normalize path))
  | .error (.raised exception text) => .error (.raised exception text)

/-- The sheet that a file holds, from the content of the file; `none` if there is no such file. -/
def ofFile (path : String) (content : Option (List UInt8)) : Except LoadError Sheet :=
  match content with
  | none => .error (.unreadable (Path.normalize path))
  | some octets =>
    match Utf8.decode octets with
    | none => .error .notText
    | some cs => if isJsonPath path then ofJson path cs else ofYaml yaml path cs

end

/-- Why a sheet is not loaded. -/
inductive NotLoaded where
  /-- The name holds a null character, which the name of no file does. -/
  | nullInName
  | file (e : LoadError)
  deriving Repr

/-- Is the failure reported as one of the sheet file? -/
def NotLoaded.isReported : NotLoaded → Bool
  | nullInName => false
  | file e => e.isReported

/-- Loads the sheet of a name, from the content of the file; `none` if there is no such file. -/
def load (yaml : Yaml.Parser) (path : String) (content : Option (List UInt8)) :
    Except NotLoaded Sheet :=
  if '\x00' ∈ path.toList then .error .nullInName else (ofFile yaml path content).mapError .file

end Spreadsheet.Sheet
