import Spreadsheet.Text.Hex
import Spreadsheet.Value.Shown

/-!
# Writing JSON

Values are written with ASCII characters only, on one line with sorted keys (`compact`) or with each
item on a line of its own (`indented`). Floating point numbers have the fewest digits; those that are
not finite are written as words.
-/

namespace Spreadsheet.Json

/-! ### Texts -/

/-- The escape of a code below 2^16. -/
def escapedCode (n : Nat) : List Char :=
  '\\' :: 'u' :: Text.hex 4 n

/-- A character inside a text; beyond U+FFFF as the escapes of two surrogates. -/
def escapedChar (c : Char) : List Char :=
  if c = '"' || c = '\\' then ['\\', c]
  else if c = '\n' then ['\\', 'n']
  else if c = '\r' then ['\\', 'r']
  else if c = '\t' then ['\\', 't']
  else if c = '\x08' then ['\\', 'b']
  else if c = '\x0c' then ['\\', 'f']
  else if 0x20 ≤ c.toNat && c.toNat < 0x7f then [c]
  else if c.toNat < 0x10000 then escapedCode c.toNat
  else
    let n := c.toNat - 0x10000
    escapedCode (0xd800 + n / 0x400) ++ escapedCode (0xdc00 + n % 0x400)

/-- A text between quotes. -/
def textLiteral (s : String) : String :=
  String.ofList ('"' :: s.toList.flatMap escapedChar ++ ['"'])

/-! ### Scalars -/

/-- A number. -/
def number : Number → Except Fault String
  | .float .nan => .ok "NaN"
  | .float (.inf negative) => .ok (if negative then "-Infinity" else "Infinity")
  | n => n.shown

/-- A scalar other than a text, without quotes. -/
def bare : Scalar → Except Fault String
  | .null => .ok "null"
  | .bool b => .ok (if b then "true" else "false")
  | .number n => number n
  | .text s => .ok s

/-- A scalar. -/
def scalar : Scalar → Except Fault String
  | .text s => .ok (textLiteral s)
  | v => bare v

/-! ### Lists and maps -/

/-- How lists and maps are laid out: what separates two items besides the start of a line, whether
items start lines, and whether keys are sorted. -/
structure Layout where
  separator : String
  lines : Bool
  sorted : Bool

/-- On one line, with sorted keys. -/
def compact : Layout := ⟨", ", false, true⟩

/-- Each item on a line of its own, indented by two spaces more than its list or map. -/
def indented : Layout := ⟨",", true, false⟩

namespace Layout

/-- What stands before an item, and before a closing bracket, at a depth. -/
def lead (l : Layout) (depth : Nat) : String :=
  if l.lines then String.ofList ('\n' :: List.replicate (2 * depth) ' ') else ""

/-- Items between brackets; nothing stands between the brackets of no items. -/
def bracket (l : Layout) (depth : Nat) (opening closing : String) (items : List String) : String :=
  if items.isEmpty then opening ++ closing
  else
    opening ++ l.lead (depth + 1) ++ (l.separator ++ l.lead (depth + 1)).intercalate items ++
      l.lead depth ++ closing

/-- The entries of a map in the order in which they are written. -/
def order (l : Layout) (entries : List (String × String)) : List (String × String) :=
  if l.sorted then entries.mergeSort (fun a b => decide (a.1 ≤ b.1)) else entries

mutual

/-- A value at a depth. -/
def write (l : Layout) (depth : Nat) : Value → Except Fault String
  | .scalar s => scalar s
  | .list items => do return l.bracket depth "[" "]" (← l.writeItems (depth + 1) items)
  | .map entries => do
    let written := l.order (← l.writeEntries (depth + 1) entries)
    return l.bracket depth "\x7b" "\x7d" (written.map fun (k, v) => textLiteral k ++ ": " ++ v)

/-- The items of a list. -/
def writeItems (l : Layout) (depth : Nat) : List Value → Except Fault (List String)
  | [] => .ok []
  | v :: rest => do return (← l.write depth v) :: (← l.writeItems depth rest)

/-- The keys of a map with their values. -/
def writeEntries (l : Layout) (depth : Nat) :
    List (Scalar × Value) → Except Fault (List (String × String))
  | [] => .ok []
  | (k, v) :: rest => do return (← bare k, ← l.write depth v) :: (← l.writeEntries depth rest)

end

end Layout

/-- A value on one line, with sorted keys. -/
def line (v : Value) : Except Fault String :=
  compact.write 0 v

/-- A value over several lines. -/
def pretty (v : Value) : Except Fault String :=
  indented.write 0 v

end Spreadsheet.Json
