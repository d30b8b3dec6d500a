import Spreadsheet.Number
import Spreadsheet.Text.Quoted

/-!
# Faults

Everything that can go wrong with a formula, a reference or a number, by its cause. The wording is
in `Fault.message`.
-/

namespace Spreadsheet

/-- Why a formula has no tree. -/
inductive SyntaxError where
  | missingEquals
  | unexpectedEnd
  | unexpectedToken (text : String)
  | unexpectedCharacter (c : Char)
  | invalidNumber (text : String)
  deriving DecidableEq, Repr

/-- Which part of a reference is malformed. -/
inductive ReferenceError where
  | columnIndex
  | columnLetters
  | rowIndex
  | label
  | rowNumber
  | range
  deriving DecidableEq, Repr

/-- What can go wrong. -/
inductive Fault where
  /-- The formula's text has no tree; detected at a position of the text after the `=`. -/
  | badSyntax (reason : SyntaxError) (position : Nat)
  | badReference (ref : String) (reason : ReferenceError)
  /-- A write outside a grid of `rows` by `cols`. -/
  | outOfBounds (ref : String) (rows cols : Nat)
  /-- A formula, without its `=`, whose value is a range. -/
  | rangeAsValue (body : String)
  | unknownOperator (symbol : String)
  | unknownNode (kind : String)
  | overflow (kind : Overflow)
  /-- A decimal numeral with more digits than can be read. -/
  | numeralTooLong (digits : Nat)
  /-- An integer with more digits than can be written. -/
  | integerTooLong
  /-- A count of significant digits with which no number can be written. -/
  | badPrecision (precision : Int)
  /-- More formulas wait for one another than the sheet has. -/
  | nestedTooDeep
  deriving DecidableEq, Repr

/-- How many decimal digits a numeral may have, read or written. -/
def numeralLimit : Nat := 4300

def SyntaxError.message : SyntaxError → String
  | missingEquals => "Formula must start with '='"
  | unexpectedEnd => "Unexpected end of formula"
  | unexpectedToken text => "Unexpected token: " ++ Text.quoted text
  | unexpectedCharacter c => "Unexpected character: " ++ Text.quoted (String.singleton c)
  | invalidNumber text => "Invalid number: " ++ Text.quoted text

def ReferenceError.message (ref : String) : ReferenceError → String
  | columnIndex => "Invalid column index: " ++ ref
  | columnLetters => "Invalid column letters: " ++ Text.quoted ref
  | rowIndex => "Invalid row index: " ++ ref
  | label => "Invalid A1 ref: " ++ Text.quoted ref
  | rowNumber => "Invalid A1 row: " ++ Text.quoted ref
  | range => "Invalid range: " ++ Text.quoted ref

def Overflow.message : Overflow → String
  | integer => "int too large to convert to float"
  | quotient => "integer division result too large for a float"

/-- The start of the messages about numerals of too many digits. -/
def numeralLimitMessage : String :=
  s!"Exceeds the limit ({numeralLimit} digits) for integer string conversion"

/-- The advice at the end of the messages about numerals of too many digits. -/
def numeralLimitAdvice : String :=
  "; use sys.set_int_max_str_digits() to increase the limit"

def Fault.message : Fault → String
  | badSyntax reason position =>
    s!"Formula syntax error: {reason.message} (at position {position})"
  | badReference ref reason => reason.message ref
  | outOfBounds ref rows cols =>
    s!"Out of bounds: {Text.quoted ref} (sheet is {rows} rows x {cols} cols)"
  | rangeAsValue body => "Range cannot be used as a cell value: " ++ body
  | unknownOperator symbol => "Unknown operator: " ++ Text.quoted symbol
  | unknownNode kind => "Unknown node type: " ++ kind
  | overflow kind => kind.message
  | numeralTooLong digits =>
    s!"{numeralLimitMessage}: value has {digits} digits{numeralLimitAdvice}"
  | integerTooLong => numeralLimitMessage ++ numeralLimitAdvice
  | badPrecision precision =>
    if precision < 0 then "Format specifier missing precision" else "precision too big"
  | nestedTooDeep => "maximum recursion depth exceeded"

end Spreadsheet
