import Spreadsheet.Value.Integer

/-!
# Parsers of YAML

YAML is left to a parser that is no part of the program and comes to it as an argument. This is what
the program knows of a parser: the data that it constructs, and how it fails. `Yaml.read` is a parser
for a part of YAML.
-/

namespace Spreadsheet.Yaml

/-- What a parser constructs from a scalar: a value of the program's own, or an object of another
type, such as a date. -/
inductive Atom where
  | scalar (v : Scalar)
  | object (kind : String)
  deriving DecidableEq, Repr

/-- What a parser constructs. If a map holds a key twice, the last value counts. -/
inductive Data where
  | atom (a : Atom)
  | list (items : List Data)
  | map (entries : List (Atom × Data))
  deriving Inhabited

/-- Why a parser constructs nothing. -/
inductive Failure where
  /-- The text is malformed: the failure that a parser has for this. -/
  | malformed
  /-- Any other exception, by the name of its class and its text. -/
  | raised (exception text : String)
  deriving DecidableEq, Repr

/-- **A parser**: from the characters of a text to the data in it. -/
abbrev Parser := List Char → Except Failure Data

/-! ### What the program makes of the data -/

/-- A key as the program takes it: an object is no text, like nothing. -/
def Atom.key : Atom → Scalar
  | scalar v => v
  | object _ => .null

namespace Data

mutual

/-- The data as the program takes them. An object is nothing that has a place in a sheet, like a
list. -/
def value : Data → Value
  | .atom (.scalar v) => .scalar v
  | .atom (.object kind) => .list [.text kind]
  | .list items => .list (values items)
  | .map entries => .map (Value.mapOfList (entryValues entries))

/-- The items of a list. -/
def values : List Data → List Value
  | [] => []
  | d :: rest => d.value :: values rest

/-- The entries of a map. -/
def entryValues : List (Atom × Data) → List (Scalar × Value)
  | [] => []
  | (k, d) :: rest => (k.key, d.value) :: entryValues rest

end

/-- The kind of the data, as messages name it. -/
def kind : Data → String
  | .atom (.object kind) => kind
  | d => d.value.kind

end Data

end Spreadsheet.Yaml
