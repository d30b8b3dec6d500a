/-!
# Lines

A text is split at its line boundaries: line feed, carriage return (with a line feed after it),
vertical tab, form feed, the three separators U+001C to U+001E, next line, and the two separators
U+2028 and U+2029. A boundary at the end opens no further line.
-/

namespace Spreadsheet.Text

/-- Does the character end a line? -/
def isLineBreak (c : Char) : Bool :=
  let n := c.toNat
  (10 ≤ n && n ≤ 13) || (28 ≤ n && n ≤ 30) || n == 0x85 || n == 0x2028 || n == 0x2029

/-- The lines of a text, after the lines already met (last first) and the start of the present
line (backwards). -/
def linesFrom (met : List (List Char)) (line : List Char) : List Char → List (List Char)
  | [] => (if line.isEmpty then met else line.reverse :: met).reverse
  | '\r' :: '\n' :: rest => linesFrom (line.reverse :: met) [] rest
  | c :: rest =>
    if isLineBreak c then linesFrom (line.reverse :: met) [] rest
    else linesFrom met (c :: line) rest

/-- The lines of a text, without their ends. -/
def lines (cs : List Char) : List (List Char) :=
  linesFrom [] [] cs

end Spreadsheet.Text
