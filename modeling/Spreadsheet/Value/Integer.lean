import Spreadsheet.Decimal.Reading
import Spreadsheet.Numeral
import Spreadsheet.Value.Basic

/-!
# Values taken for integers

Data are read leniently: a truth value, a floating point number without a fraction and a text may
stand for an integer (`Value.integer?`). A setting is converted, which cuts off fractions and fails
for a reason (`Value.toInteger`).
-/

namespace Spreadsheet

namespace Numeral

/-- Removes underscores that stand between two digits. -/
def dropUnderscores : List Char → List Char
  | a :: '_' :: b :: rest =>
    if Decimal.isAsciiDigit a && Decimal.isAsciiDigit b then a :: dropUnderscores (b :: rest)
    else a :: '_' :: dropUnderscores (b :: rest)
  | c :: rest => c :: dropUnderscores rest
  | [] => []

/-- Is the character one of the four that separate records? -/
def isRecordSeparator (c : Char) : Bool :=
  0x1c ≤ c.toNat && c.toNat ≤ 0x1f

/-- The integer that a text writes: digits with a sign or none, and with a point and zeros after
them or not. Blanks around it are left out, but the separators of records are no blanks here. -/
def integerOfText? (s : String) : Option Int :=
  let (negative, rest) := Decimal.takeSign (Text.trimList s.toList)
  let digits := dropUnderscores (rest.takeWhile (· ≠ '.'))
  let fraction := (rest.dropWhile (· ≠ '.')).drop 1
  if digits.isEmpty || !digits.all Decimal.isAsciiDigit || !fraction.all (· = '0') ||
      numeralLimit < s.length || s.toList.any isRecordSeparator then none
  else
    let n : Int := Text.digitsValue digits
    some (if negative then -n else n)

/-- The digits of a numeral without the underscores, each of which has to stand between two
digits. -/
def ungrouped? (cs : List Char) : Option (List Char) :=
  let parts := cs.splitOn '_'
  if parts.all fun part => !part.isEmpty && part.all Text.isDigit then some parts.flatten else none

end Numeral

/-- Why a value cannot be converted to an integer. -/
inductive NotInteger where
  /-- A text that is no numeral, or has too many digits. -/
  | numeral
  | notANumber
  | infinite
  /-- Neither a text nor a number. -/
  | kind
  deriving DecidableEq, Repr

namespace Value

/-- The kind of a value, as messages name it. -/
def kind : Value → String
  | .scalar .null => "NoneType"
  | .scalar (.bool _) => "bool"
  | .scalar (.number (.int _)) => "int"
  | .scalar (.number (.float _)) => "float"
  | .scalar (.text _) => "str"
  | .list _ => "list"
  | .map _ => "dict"

/-- The integer that a value is taken for in data. -/
def integer? : Value → Option Int
  | .scalar (.bool b) => some (if b then 1 else 0)
  | .scalar (.number (.int n)) => some n
  | .scalar (.number (.float x)) =>
    if x.isIntegral then x.truncate?.filter fun n => n.natAbs < 0x8000000000000000 else none
  | .scalar (.text s) => Numeral.integerOfText? s
  | _ => none

/-- The integer that a text is converted to. -/
def integerOfNumeral (s : String) : Except NotInteger Int :=
  let (negative, rest) := Decimal.takeSign (Text.trimList s.toList)
  match (Numeral.ungrouped? rest).map Numeral.read with
  | some (.ok n) => .ok (if negative then -n else n)
  | _ => .error .numeral

/-- The integer that a value is converted to. -/
def toInteger : Value → Except NotInteger Int
  | .scalar (.bool b) => .ok (if b then 1 else 0)
  | .scalar (.number (.int n)) => .ok n
  | .scalar (.number (.float .nan)) => .error .notANumber
  | .scalar (.number (.float x)) =>
    match x.truncate? with
    | some n => .ok n
    | none => .error .infinite
  | .scalar (.text s) => integerOfNumeral s
  | _ => .error .kind

end Value

end Spreadsheet
