import Spreadsheet.Decimal.Rounding

/-!
# Binary floating point numbers of 64 bits

A finite number is a sign and a code. Codes count the non-negative numbers of the format upwards
from zero, and `units` gives the number of a code as a multiple of 2^-1074, the least positive
one. There is one not-a-number.

Every operation is the exact result rounded once, to the nearest number of the format and to the
even code of two nearest (`ofRatio`); a result beyond the greatest code is infinite.
-/

namespace Spreadsheet

/-- How many numbers of the format lie between one power of two and the next: 2^52. -/
abbrev Binary64.binade : Nat := 0x10000000000000

/-- How many codes there are: 2047 · 2^52. -/
abbrev Binary64.codes : Nat := 0x7ff0000000000000

/-- A number of the format, or an infinity, or not a number. -/
inductive Binary64 where
  | nan
  | inf (negative : Bool)
  | finite (negative : Bool) (code : Fin Binary64.codes)
  deriving DecidableEq, Repr, Inhabited

namespace Binary64

/-- How many units make one. -/
def unit : Nat := 1 <<< 1074

/-- The number that a code stands for, in units. -/
def units (code : Nat) : Nat :=
  if code < binade then code else (binade + code % binade) <<< (code / binade - 1)

/-- The number of a sign and a code, in units. -/
def signedUnits (negative : Bool) (code : Nat) : Int :=
  if negative then -(units code : Int) else units code

/-- The number of the given sign nearest to the non-negative ratio `num / den`. -/
def ofRatio (negative : Bool) (num den : Nat) : Binary64 :=
  let shift := (num * unit / den).log2 - 52
  let code := shift * binade + Decimal.roundDiv (num * unit) (den <<< shift)
  if h : code < codes then finite negative ⟨code, h⟩ else inf negative

/-- Zero with the given sign. -/
def zero (negative : Bool) : Binary64 :=
  finite negative ⟨0, by decide⟩

/-- The number nearest to a count of units; no unit at all has the sign given for it. -/
def ofUnits (n : Int) (zeroNegative : Bool) : Binary64 :=
  if n = 0 then zero zeroNegative else ofRatio (n < 0) n.natAbs unit

/-- The number itself, if it is one and no infinity. -/
def finite? : Binary64 → Option Binary64
  | finite negative code => some (finite negative code)
  | _ => none

/-- The number nearest to an integer, if the format reaches so far. -/
def ofInt? (n : Int) : Option Binary64 :=
  (ofRatio (n < 0) n.natAbs 1).finite?

/-- The number nearest to a quotient of integers, if the format reaches so far. -/
def quotient? (a b : Int) : Option Binary64 :=
  (ofRatio (decide (a < 0) != decide (b < 0)) a.natAbs b.natAbs).finite?

/-! ### Tests -/

/-- Is it a number, and no infinity? -/
def isFinite : Binary64 → Bool
  | finite .. => true
  | _ => false

/-- Is it an integer? -/
def isIntegral : Binary64 → Bool
  | finite _ code => units code % unit = 0
  | _ => false

/-- Is it zero, of either sign? -/
def isZero : Binary64 → Bool
  | finite _ code => code.val = 0
  | _ => false

/-! ### Arithmetic -/

/-- The same magnitude with the other sign. -/
protected def neg : Binary64 → Binary64
  | nan => nan
  | inf negative => inf !negative
  | finite negative code => finite (!negative) code

/-- The magnitude. -/
protected def abs : Binary64 → Binary64
  | nan => nan
  | inf _ => inf false
  | finite _ code => finite false code

protected def add : Binary64 → Binary64 → Binary64
  | nan, _ | _, nan => nan
  | inf s, inf t => if s = t then inf s else nan
  | inf s, finite .. | finite .., inf s => inf s
  | finite s a, finite t b => ofUnits (signedUnits s a + signedUnits t b) (s && t)

protected def sub (x y : Binary64) : Binary64 :=
  x.add y.neg

protected def mul : Binary64 → Binary64 → Binary64
  | nan, _ | _, nan => nan
  | inf s, inf t => inf (s != t)
  | inf s, finite t a | finite t a, inf s => if a.val = 0 then nan else inf (s != t)
  | finite s a, finite t b => ofRatio (s != t) (units a * units b) (unit * unit)

protected def div : Binary64 → Binary64 → Binary64
  | nan, _ | _, nan | inf _, inf _ => nan
  | inf s, finite t _ => inf (s != t)
  | finite s _, inf t => zero (s != t)
  | finite s a, finite t b =>
    if b.val = 0 then if a.val = 0 then nan else inf (s != t)
    else ofRatio (s != t) (units a) (units b)

/-- The greatest integer that is not greater. -/
def floor? : Binary64 → Option Int
  | finite negative code => some ((signedUnits negative code).fdiv unit)
  | _ => none

/-- The greatest integer that is not greater than the sum with a half. -/
def halfUp? (x : Binary64) : Option Int :=
  (x.add (ofRatio false 1 2)).floor?

/-- The integer next to it towards zero. -/
def truncate? : Binary64 → Option Int
  | finite negative code => some ((signedUnits negative code).tdiv unit)
  | _ => none

/-- The place on the extended number line: the sign for an infinity, then the units. -/
def place? : Binary64 → Option (Int × Int)
  | nan => none
  | inf negative => some (if negative then -1 else 1, 0)
  | finite negative code => some (0, signedUnits negative code)

end Binary64

end Spreadsheet
