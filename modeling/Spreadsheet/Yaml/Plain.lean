import Spreadsheet.Numeral
import Spreadsheet.Yaml.Dates
import Spreadsheet.Yaml.Scalar

/-!
# What plain scalars stand for

A scalar without quotes may stand for nothing, a truth value, a number or a date; any other stands
for its characters. Integers may be written in base 2, 8, 10, 16 and 60, with underscores between the
digits, and other numbers in base 10 and 60.
-/

namespace Spreadsheet.Yaml

/-- The spellings of nothing. -/
def nullWords : List String := ["", "~", "null", "Null", "NULL"]

/-- The spellings of true. -/
def trueWords : List String :=
  ["true", "True", "TRUE", "yes", "Yes", "YES", "on", "On", "ON"]

/-- The spellings of false. -/
def falseWords : List String :=
  ["false", "False", "FALSE", "no", "No", "NO", "off", "Off", "OFF"]

/-- The spellings of infinity, without a sign. -/
def infinityWords : List String := [".inf", ".Inf", ".INF"]

/-- The spellings of not-a-number. -/
def nanWords : List String := [".nan", ".NaN", ".NAN"]

/-! ### Numbers -/

/-- Digits of a base with underscores between them: at least one character, and which characters
there may be. -/
def areDigits (base : Nat) (cs : List Char) : Bool :=
  !cs.isEmpty && cs.all fun c => c = '_' || (Text.hexValue? c).any (· < base)

/-- Without the underscores. -/
def dropUnderscores (cs : List Char) : List Char :=
  cs.filter (· ≠ '_')

/-- The number that digits of a base write. -/
def digitsValue (base : Nat) (cs : List Char) : Nat :=
  (dropUnderscores cs).foldl (fun n c => n * base + (Text.hexValue? c).getD 0) 0

/-- The parts between the colons. -/
def colonParts (cs : List Char) : List (List Char) :=
  cs.splitOn ':'

/-- Is the part a number below 60? -/
def isSixtieth : List Char → Bool
  | [c] => Decimal.isAsciiDigit c
  | [c, d] => '0' ≤ c && c ≤ '5' && Decimal.isAsciiDigit d
  | _ => false

/-- Does the character start a number, and is it not zero? -/
def isPositiveDigit (c : Char) : Bool :=
  Decimal.isAsciiDigit c && c ≠ '0'

/-- The number that decimal digits write. -/
def decimal (cs : List Char) : Except Failure Nat :=
  (Numeral.read (dropUnderscores cs)).mapError (valueError ·.message)

/-- The number that digits write after the prefix of their base; underscores alone write none. -/
def prefixed (base : Nat) (digits : List Char) : Option (Except Failure Nat) :=
  if !areDigits base digits then none
  else if (dropUnderscores digits).isEmpty then
    some (.error (valueError s!"invalid literal for int() with base {base}: ''"))
  else some (.ok (digitsValue base digits))

/-- The number that digits write, alone or before numbers below 60; `none` if the text is not so. -/
def sexagesimal? (cs : List Char) : Option (Except Failure Nat) :=
  match colonParts cs with
  | first :: rest =>
    if areDigits 10 first && rest.all isSixtieth then
      some ((decimal first).map fun n => rest.foldl (fun n part => n * 60 + digitsValue 10 part) n)
    else none
  | [] => none

/-- The number that an integer without its sign is; `none` if the text is no integer. -/
def natural? : List Char → Option (Except Failure Nat)
  | ['0'] => some (.ok 0)
  | '0' :: 'b' :: digits => prefixed 2 digits
  | '0' :: 'x' :: digits => prefixed 16 digits
  | '0' :: digits => if areDigits 8 digits then some (.ok (digitsValue 8 digits)) else none
  | c :: rest => if isPositiveDigit c then sexagesimal? (c :: rest) else none
  | [] => none

/-- The integer that a text writes. -/
def integer? (cs : List Char) : Option (Except Failure Int) :=
  let (negative, rest) := Decimal.takeSign cs
  (natural? rest).map (Except.map fun n : Nat => if negative then -(n : Int) else n)

/-- May the character stand among the digits of a number? -/
def isPart (c : Char) : Bool :=
  Decimal.isAsciiDigit c || c = '_'

/-- Is a text without its sign a decimal: digits, a point, digits or none, and an exponent with a
sign or none? Without digits before the point there is no sign, and a digit follows the point. -/
def isDecimal (signed : Bool) (cs : List Char) : Bool :=
  let whole := cs.takeWhile isPart
  match cs.dropWhile isPart with
  | '.' :: rest =>
    let fraction := rest.takeWhile isPart
    let startsWell := match whole with
      | [] => !signed && fraction.head?.any Decimal.isAsciiDigit
      | c :: _ => Decimal.isAsciiDigit c
    startsWell && match rest.dropWhile isPart with
      | [] => true
      | e :: sign :: digits =>
        (e = 'e' || e = 'E') && (sign = '+' || sign = '-') && !digits.isEmpty &&
          digits.all Decimal.isAsciiDigit
      | _ => false
  | _ => false

/-- The decimals between the colons of a text without its sign, if numbers below 60 follow the first
one and the last of them goes on with a point. -/
def decimalParts? (cs : List Char) : Option (List (List Char)) := do
  let first :: rest := colonParts (cs.takeWhile (· ≠ '.')) | none
  let last ← rest.getLast?
  let '.' :: fraction := cs.dropWhile (· ≠ '.') | none
  guard (first.head?.any Decimal.isAsciiDigit && first.all isPart && rest.all isSixtieth &&
    fraction.all isPart)
  return (first :: rest.dropLast ++ [last ++ '.' :: fraction]).map dropUnderscores

/-- The number with the given digits in base 60, the last one first. -/
def ofSixtieths (digits : List Binary64) : Except Overflow Number := do
  let (n, _) ← digits.foldlM (fun (n, base) x => do
    return (← n.add (← (Number.float x).mul (.int base)), base * 60)) (.float (.zero false), (1 : Int))
  return n

/-- The number that is written in base 60 before a point; `none` if the text is not so. -/
def sexagesimalFloat? (cs : List Char) : Option (Except Failure Number) := do
  let digits ← (← decimalParts? cs).mapM Decimal.read?
  return (ofSixtieths digits.reverse).mapError fun e => .raised "OverflowError" e.message

/-- The floating point number that a text writes. -/
def float? (cs : List Char) : Option (Except Failure Number) :=
  let (negative, rest) := Decimal.takeSign cs
  let signed := rest.length != cs.length
  if infinityWords.contains (String.ofList rest) then some (.ok (.float (.inf negative)))
  else if nanWords.contains (String.ofList cs) then some (.ok (.float .nan))
  else if isDecimal signed rest then
    (Decimal.read? (dropUnderscores cs)).map fun x => .ok (.float x)
  else (sexagesimalFloat? rest).map (Except.map fun x => if negative then x.neg else x)

/-! ### All scalars -/

/-- The scalars that stand for nothing that could be given: what maps are merged with, and what gives
the value of a map. -/
def bareWords : List String := ["<<", "="]

/-- What a plain scalar stands for. -/
def resolve (cs : List Char) : Except Failure Atom :=
  let s := String.ofList cs
  if nullWords.contains s then .ok (.scalar .null)
  else if trueWords.contains s then .ok (.scalar (.bool true))
  else if falseWords.contains s then .ok (.scalar (.bool false))
  else if bareWords.contains s then .error .malformed
  else match integer? cs, float? cs, date? cs with
    | some n, _, _ => n.map fun n => .scalar (.int n)
    | none, some x, _ => x.map fun x => .scalar (.number x)
    | none, none, some d => d
    | none, none, none => .ok (.scalar (.text s))

end Spreadsheet.Yaml
