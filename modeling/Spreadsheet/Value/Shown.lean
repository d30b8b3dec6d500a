import Spreadsheet.Decimal.Layout
import Spreadsheet.Numeral
import Spreadsheet.Value.Basic

/-!
# Values as text

How a value of any kind is shown. A text stands for itself, but is quoted inside a list or a map.
An integer with too many digits cannot be shown.
-/

namespace Spreadsheet

/-- A number as text; a floating point number is written with the fewest digits. -/
def Number.shown : Number → Except Fault String
  | int n => Numeral.write n
  | float x => .ok (Decimal.shortestText x)

namespace Scalar

/-- A scalar as it is shown inside a list or a map. -/
def quoted : Scalar → Except Fault String
  | null => .ok "None"
  | bool true => .ok "True"
  | bool false => .ok "False"
  | number n => n.shown
  | text s => .ok (Text.quoted s)

/-- A scalar as it is shown by itself. -/
def shown : Scalar → Except Fault String
  | text s => .ok s
  | s => s.quoted

end Scalar

namespace Value

mutual

/-- A value as it is shown inside a list or a map. -/
def quoted : Value → Except Fault String
  | scalar s => s.quoted
  | list items => do return "[" ++ ", ".intercalate (← quotedItems items) ++ "]"
  | map entries => do return "\x7b" ++ ", ".intercalate (← quotedEntries entries) ++ "\x7d"

/-- The items of a list as they are shown. -/
def quotedItems : List Value → Except Fault (List String)
  | [] => .ok []
  | v :: rest => do return (← quoted v) :: (← quotedItems rest)

/-- The entries of a map as they are shown. -/
def quotedEntries : OrderedMap Scalar Value → Except Fault (List String)
  | [] => .ok []
  | (k, v) :: rest => do return ((← k.quoted) ++ ": " ++ (← quoted v)) :: (← quotedEntries rest)

end

/-- A value as it is shown by itself. -/
def shown : Value → Except Fault String
  | scalar s => s.shown
  | v => v.quoted

end Value

end Spreadsheet
