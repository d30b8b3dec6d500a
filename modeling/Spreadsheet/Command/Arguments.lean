import Spreadsheet.Log.Query
import Spreadsheet.Value.Integer

/-!
# Commands

The command line is a name of a command, operands, and options that start with two dashes. Options
may stand anywhere; those that take a value have it after an equals sign or as the next argument.
Two dashes alone end the options. An option given twice takes its last value.
-/

namespace Spreadsheet

/-- How the values of a sheet are printed. -/
inductive Format where
  | table
  | csv
  | json
  deriving DecidableEq, Repr

/-- What the program is asked to do. -/
inductive Command where
  | version
  /-- Makes a project in a directory. -/
  | create (directory : String)
  /-- Prints the values of the given cells of a sheet, or of all if none are given. -/
  | eval (sheet project : String) (cells : List String) (format : Format)
  /-- Prints which cells of a sheet fail. -/
  | check (sheet project : String) (json : Bool)
  /-- Prints the value that a reference names among several sheets. -/
  | kpi (ref : String) (sheets : List String) (project : String) (raw : Bool)
  /-- Prints the events of a project. -/
  | events (directory : String) (query : Log.Query)

namespace Command

/-- Arguments that ask for nothing that the program does: of which command, and what is wrong. -/
structure Misuse where
  command : String
  message : String

/-! ### Splitting arguments -/

/-- Arguments split into operands, the values of options, and options without values. -/
structure Arguments where
  operands : List String := []
  values : List (String × String) := []
  flags : List String := []

namespace Arguments

/-- With one more operand. -/
def addOperand (s : String) (a : Arguments) : Arguments :=
  { a with operands := a.operands ++ [s] }

/-- With one more value of an option. -/
def addValue (name value : String) (a : Arguments) : Arguments :=
  { a with values := a.values ++ [(name, value)] }

/-- The name of an option, and its value if it has one after an equals sign. -/
def splitOption (s : String) : String × Option String :=
  let name := s.toList.takeWhile (· ≠ '=')
  let rest := s.toList.dropWhile (· ≠ '=')
  (String.ofList name, if rest.isEmpty then none else some (String.ofList (rest.drop 1)))

/-- Splits arguments, where `valued` names the options that take a value and `bare` those that take
none. -/
def split (valued bare : List String) : List String → Arguments → Except String Arguments
  | [], a => .ok a
  | "--" :: rest, a => .ok { a with operands := a.operands ++ rest }
  | s :: rest, a =>
    if !s.startsWith "-" || s = "-" then split valued bare rest (a.addOperand s)
    else
      let (name, value?) := splitOption s
      if bare.contains s then split valued bare rest { a with flags := a.flags ++ [s] }
      else if valued.contains name then
        match value?, rest with
        | some value, rest => split valued bare rest (a.addValue name value)
        | none, value :: rest => split valued bare rest (a.addValue name value)
        | none, [] => .error s!"Option {Text.quoted name} requires an argument."
      else .error s!"No such option: {name}"

/-- All values of an option. -/
def all (a : Arguments) (name : String) : List String :=
  (a.values.filter (·.1 == name)).map Prod.snd

/-- The last value of an option. -/
def last? (a : Arguments) (name : String) : Option String :=
  (a.all name).getLast?

/-- The directory of the project: the present one unless told otherwise. -/
def project (a : Arguments) : String :=
  (a.last? "--project").getD "."

/-- The only operand. -/
def single (a : Arguments) (what : String) : Except String String :=
  match a.operands with
  | [s] => .ok s
  | [] => .error s!"Missing argument {Text.quoted what}."
  | _ :: extra :: _ => .error s!"Got unexpected extra argument ({extra})"

/-- The last value of an option that has to be one of the given texts. -/
def choice (a : Arguments) (name : String) (choices : List String) :
    Except String (Option String) :=
  match a.last? name with
  | none => .ok none
  | some s =>
    let list := ", ".intercalate (choices.map Text.quoted)
    if choices.contains s then .ok (some s)
    else .error s!"Invalid value for {Text.quoted name}: {Text.quoted s} is not one of {list}."

/-- The last value of an option that has to be an integer. -/
def integer (a : Arguments) (name : String) (default : Int) : Except String Int :=
  match a.last? name with
  | none => .ok default
  | some s =>
    match Value.integerOfNumeral s with
    | .ok n => .ok n
    | .error _ =>
      .error s!"Invalid value for {Text.quoted name}: {Text.quoted s} is not a valid integer."

end Arguments

/-! ### Commands of arguments -/

/-- The format of a name. -/
def formatOfName : Option String → Format
  | some "csv" => .csv
  | some "json" => .json
  | _ => .table

/-- The command with the given name and arguments. -/
def ofNamed (name : String) (arguments : List String) : Except String Command :=
  match name with
  | "new" => do
    let a ← Arguments.split [] [] arguments {}
    return .create (← a.single "DIRECTORY")
  | "eval" => do
    let a ← Arguments.split ["--project", "--cell", "--format"] [] arguments {}
    let format ← a.choice "--format" ["table", "csv", "json"]
    return .eval (← a.single "SHEET_FILE") a.project (a.all "--cell") (formatOfName format)
  | "check" => do
    let a ← Arguments.split ["--project"] ["--json"] arguments {}
    return .check (← a.single "SHEET_FILE") a.project (a.flags.contains "--json")
  | "kpi" => do
    let a ← Arguments.split ["--project"] ["--raw"] arguments {}
    match a.operands with
    | [] => throw "Missing argument 'REF'."
    | [_] => throw "Missing argument 'SHEET_FILES...'."
    | ref :: sheets => return .kpi ref sheets a.project (a.flags.contains "--raw")
  | "events" => do
    let a ← Arguments.split ["--level", "--type", "--sheet", "--cell", "--limit"] [] arguments {}
    let level ← a.choice "--level" ["info", "warning", "error"]
    let limit ← a.integer "--limit" 100
    return .events (← a.single "DIRECTORY")
      { level, kind := a.last? "--type", sheet := a.last? "--sheet", cell := a.last? "--cell"
        limit }
  | name => throw s!"No such command {Text.quoted name}."

/-- The command that arguments ask for. -/
def ofArguments : List String → Except Misuse Command
  | [] => .error ⟨"", "Missing command."⟩
  | "--version" :: _ => .ok .version
  | name :: arguments => (ofNamed name arguments).mapError (⟨name, ·⟩)

/-- The text of the failure to find a command. -/
def Misuse.text (m : Misuse) : String :=
  let line := if m.command.isEmpty then "" else " " ++ m.command
  s!"Usage: sheetcalc{line} [OPTIONS] ARGS...\n\nError: {m.message}\n"

end Command

end Spreadsheet
