import Spreadsheet.Json.Reading
import Spreadsheet.Text.Blank
import Spreadsheet.Text.Lines
import Spreadsheet.Text.Utf8

/-!
# Journals

A journal is the file of a project's events, one line each. Of a long journal only the last octets are
read, from the start of a line on. Lines that hold no JSON are passed over.

Main statements: `tail_suffix` (what is read is an end of the journal) and `tail_eq_self` (a short
journal is read whole).
-/

namespace Spreadsheet.Log.Journal

/-- How many octets at the end of a journal are read unless told otherwise. -/
def defaultTailSize : Int := 2097152

/-- The octet that ends a line. -/
def lineEnd : UInt8 := 10

/-- The octets after the first end of a line; none if no line ends. -/
def afterLineEnd (octets : List UInt8) : List UInt8 :=
  (octets.dropWhile (· != lineEnd)).drop 1

/-- The end of a journal: all of it if it has no more octets than the size, or else what starts with
a line in its last octets. The octet before them tells whether they start with a line. -/
def tail (size : Int) (octets : List UInt8) : List UInt8 :=
  if octets.length ≤ size then octets
  else afterLineEnd (octets.drop (octets.length - size - 1).toNat)

/-- The values in the lines of a text. -/
def valuesOfLines : List (List Char) → Except Unreadable (List Value)
  | [] => .ok []
  | line :: rest =>
    if line.all Text.isBlank then valuesOfLines rest
    else match Json.read line with
      | .ok v => do return v :: (← valuesOfLines rest)
      | .error .malformed => valuesOfLines rest
      | .error e => .error e

/-- The values in a journal, the oldest first. -/
def values (size : Int) (octets : List UInt8) : Except Unreadable (List Value) :=
  valuesOfLines (Text.lines (Utf8.decodeLossy (tail size octets)))

theorem afterLineEnd_suffix (octets : List UInt8) : afterLineEnd octets <:+ octets :=
  (List.drop_suffix 1 _).trans (List.dropWhile_suffix _)

theorem tail_suffix (size : Int) (octets : List UInt8) : tail size octets <:+ octets := by
  unfold tail
  split
  · exact List.suffix_refl _
  · exact (afterLineEnd_suffix _).trans (List.drop_suffix _ _)

theorem tail_eq_self {size : Int} {octets : List UInt8} (h : octets.length ≤ size) :
    tail size octets = octets := by
  simp [tail, h]

end Spreadsheet.Log.Journal
