import Spreadsheet.Display

/-!
# Comma-separated values

A table is written line by line, the headers first. A field stands between double quotes if it holds
a comma, a double quote or a line end, or if it is empty; a double quote inside is written twice.

Main statement: `field_plain` (a field with nothing to quote is written as it is).
-/

namespace Spreadsheet.Csv

/-- Does a field with the character need quotes? -/
def isSpecial (c : Char) : Bool :=
  c = ',' || c = '"' || c = '\n' || c = '\r'

/-- The characters of a field between quotes. -/
def doubleQuotes (cs : List Char) : List Char :=
  cs.flatMap fun c => if c = '"' then ['"', '"'] else [c]

/-- A field as it is written. -/
def field (s : String) : String :=
  if s.isEmpty || s.toList.any isSpecial then
    String.ofList ('"' :: doubleQuotes s.toList ++ ['"'])
  else s

/-- A line of fields. -/
def line (fields : List String) : String :=
  ",".intercalate (fields.map field) ++ "\n"

/-- A table as lines; a table without columns is one empty line. -/
def ofTable (t : Table) : String :=
  if t.headers.isEmpty then "\n"
  else String.join ((t.headers :: t.rows).map line)

theorem field_plain {s : String} (h : s ≠ "") (hs : s.toList.any isSpecial = false) :
    field s = s := by
  simp [field, h, hs]

end Spreadsheet.Csv
