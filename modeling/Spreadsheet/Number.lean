import Spreadsheet.Binary64.Basic

/-!
# Numbers

Cells compute with integers of any size and with floating point numbers. Two integers add, subtract
and multiply exactly; in every other case integers first become the nearest floating point number.
Division always gives a floating point number. Comparisons are exact, whatever the operands.
-/

namespace Spreadsheet

/-- An integer or a floating point number. -/
inductive Number where
  | int (n : Int)
  | float (x : Binary64)
  deriving DecidableEq, Repr, Inhabited

/-- What has no floating point number near it: an integer that has to become one, or the quotient
of two integers. -/
inductive Overflow where
  | integer
  | quotient
  deriving DecidableEq, Repr

namespace Number

instance : OfNat Number n := ⟨.int n⟩

/-- The floating point number nearest to an integer. -/
def ofIntNearest (n : Int) : Except Overflow Binary64 :=
  (Binary64.ofInt? n).elim (.error .integer) .ok

/-- The number as a floating point number. -/
def toFloat : Number → Except Overflow Binary64
  | int n => ofIntNearest n
  | float x => .ok x

/-- An operation on two numbers, given on integers and on floating point numbers. -/
def lift₂ (onInt : Int → Int → Int) (onFloat : Binary64 → Binary64 → Binary64) :
    Number → Number → Except Overflow Number
  | int a, int b => .ok (int (onInt a b))
  | a, b => do return float (onFloat (← a.toFloat) (← b.toFloat))

protected def add : Number → Number → Except Overflow Number := lift₂ (· + ·) Binary64.add

protected def sub : Number → Number → Except Overflow Number := lift₂ (· - ·) Binary64.sub

protected def mul : Number → Number → Except Overflow Number := lift₂ (· * ·) Binary64.mul

protected def neg : Number → Number
  | int n => int (-n)
  | float x => float x.neg

/-- The magnitude. -/
protected def abs : Number → Number
  | int n => int n.natAbs
  | float x => float x.abs

/-- The quotient as a floating point number. -/
protected def div : Number → Number → Except Overflow Number
  | int a, int b => (Binary64.quotient? a b).elim (.error .quotient) (.ok ∘ float)
  | a, b => do return float ((← a.toFloat).div (← b.toFloat))

/-- Is the number zero? -/
def isZero : Number → Bool
  | int n => n = 0
  | float x => x.isZero

/-- Is the number not-a-number? -/
def isNaN : Number → Bool
  | float .nan => true
  | _ => false

/-- The place of a number on the extended number line. -/
def place? : Number → Option (Int × Int)
  | int n => some (0, n * Binary64.unit)
  | float x => x.place?

/-- How two numbers compare; not-a-number compares with nothing. -/
def order? : Number → Number → Option Ordering
  | int a, int b => some (compare a b)
  | a, b =>
    match a.place?, b.place? with
    | some p, some q => some ((compare p.1 q.1).then (compare p.2 q.2))
    | _, _ => none

/-- The sum from left to right, starting at the integer zero. -/
def sum (xs : List Number) : Except Overflow Number :=
  xs.foldlM Number.add (.int 0)

/-- The first of the numbers that none of the later ones precedes, where `before` tells which
comparison lets a later number take the place of an earlier one. -/
def firstExtreme (before : Ordering) (x : Number) (xs : List Number) : Number :=
  xs.foldl (fun best y => if y.order? best = some before then y else best) x

end Number

end Spreadsheet
