import Spreadsheet.Coercion
import Spreadsheet.Formula.Reference

/-!
# The value of a formula

A formula is evaluated from left to right by a reader of cells, which may have effects. Operators
and functions take their operands as numbers; a division by zero gives zero. `IF` reads its
condition and one of its branches. The value of a range is the list of the numbers in it.
-/

namespace Spreadsheet

/-! ### Operators -/

/-- The number of a result, where it may lack a floating point number. -/
def Number.orFault (r : Except Overflow Number) : Except Fault Value :=
  match r with
  | .ok n => .ok (.scalar (.number n))
  | .error kind => .error (.overflow kind)

/-- Does a comparison hold between numbers that compare as given? -/
def Operator.holds (op : Operator) (order : Option Ordering) : Bool :=
  match op with
  | .eq => order = some .eq
  | .ne => order ≠ some .eq
  | .gt => order = some .gt
  | .ge => order = some .gt ∨ order = some .eq
  | .lt => order = some .lt
  | .le => order = some .lt ∨ order = some .eq
  | _ => false

/-- An operator on two numbers. -/
def Operator.apply (op : Operator) (a b : Number) : Except Fault Value :=
  match op with
  | .add => Number.orFault (a.add b)
  | .sub => Number.orFault (a.sub b)
  | .mul => Number.orFault (a.mul b)
  | .div => if b.isZero then .ok (.int 0) else Number.orFault (a.div b)
  | op => .ok (.scalar (.bool (op.holds (a.order? b))))

/-- Does a value count as true in a condition? A list does, even if it is empty. -/
def Value.isTruthy : Value → Bool
  | .scalar s => s.isTruthy
  | .list _ => true
  | .map entries => !entries.isEmpty

/-! ### Functions -/

/-- The functions that read all their arguments. -/
inductive Function where
  | sum | average | min | max | round
  deriving DecidableEq, Repr

namespace Function

/-- The function of a name in upper case. -/
def ofName? (name : String) : Option Function :=
  if name = "SUM" then some sum
  else if name = "AVERAGE" then some average
  else if name = "MIN" then some min
  else if name = "MAX" then some max
  else if name = "ROUND" then some round
  else none

/-- How many decimal places a number asks for: its floor between 0 and 10. -/
def places (digits : Number) : Except Overflow Nat :=
  match digits with
  | .int n => do
    let _ ← Number.ofIntNearest n
    return (Max.max 0 (Min.min 10 n)).toNat
  | .float .nan => .ok 0
  | .float (.inf negative) => .ok (if negative then 0 else 10)
  | .float x => .ok (Max.max 0 (Min.min 10 (x.floor?.getD 0))).toNat

/-- A number rounded to decimal places, a half upwards, as a floating point number; the number
itself if it cannot be scaled by the power of ten. -/
def roundTo (x : Number) (places : Nat) : Except Overflow Number := do
  let factor : Int := Decimal.powerOfTen places
  let scaled ← (← x.mul (.int factor)).toFloat
  if scaled.isFinite then
    scaled.halfUp?.elim (.ok x) fun n => Number.div (.int n) (.int factor)
  else return x

/-- The average of numbers; 0 for none. -/
def averageOf (xs : List Number) : Except Overflow Number :=
  if xs.isEmpty then .ok (.int 0) else do (← Number.sum xs).div (.int xs.length)

/-- The extreme of numbers towards which `before` leads; 0 for none. -/
def extremeOf (before : Ordering) : List Number → Number
  | [] => .int 0
  | x :: xs => Number.firstExtreme before x xs

/-- The value of a function on its arguments. -/
def apply (f : Function) (args : List Value) : Except Fault Value := do
  match f with
  | sum => Number.orFault (Number.sum (← Value.numbersOfList args))
  | average => Number.orFault (averageOf (← Value.numbersOfList args))
  | min => return .scalar (.number (extremeOf .lt (← Value.numbersOfList args)))
  | max => return .scalar (.number (extremeOf .gt (← Value.numbersOfList args)))
  | round =>
    let x ← (args[0]?.getD Value.null).toNumber
    let digits ← (args[1]?.getD Value.null).toNumber
    Number.orFault (do roundTo x (← places digits))

/-- The value of a call by name on its arguments; 0 if there is no such function. -/
def applyNamed (name : String) (args : List Value) : Except Fault Value :=
  match ofName? (Text.upper name) with
  | some f => f.apply args
  | none => .ok (.int 0)

end Function

/-! ### Trees -/

/-- A result that needs no effect. -/
def pureResult {m : Type → Type} [Monad m] {α : Type} (r : Except Fault α) : ExceptT Fault m α :=
  ExceptT.mk (pure r)

namespace Expr

variable {m : Type → Type} [Monad m]

/-- The number that a value is taken for, as a value. -/
def numberIn (v : Value) : Except Fault Value := do
  return .scalar (.number (← v.toNumber))

/-- The numbers in a range of cells. -/
def readRange (read : String → ExceptT Fault m Value) (start stop : String) :
    ExceptT Fault m Value := do
  let labels ← pureResult (Range.labels (start ++ ":" ++ stop))
  let values ← labels.mapM read
  return .list (← pureResult (values.mapM numberIn))

mutual

/-- The value of a tree, cells being read by `read`. -/
def evaluate (read : String → ExceptT Fault m Value) : Expr → ExceptT Fault m Value
  | literal v => pure v
  | cell label => read label
  | range start stop => readRange read start stop
  | neg e => do
    let n ← pureResult (← evaluate read e).toNumber
    return .scalar (.number n.neg)
  | binary op l r => do
    let a ← pureResult (← evaluate read l).toNumber
    let b ← pureResult (← evaluate read r).toNumber
    pureResult (op.apply a b)
  | unsupported symbol l r => do
    let _ ← pureResult (← evaluate read l).toNumber
    let _ ← pureResult (← evaluate read r).toNumber
    pureResult (.error (.unknownOperator symbol))
  | call name args =>
    if isConditional name then evaluateConditional read args
    else do pureResult (Function.applyNamed name (← evaluateList read args))
  | foreign kind => pureResult (.error (.unknownNode kind))

/-- The values of trees, in order. -/
def evaluateList (read : String → ExceptT Fault m Value) : List Expr → ExceptT Fault m (List Value)
  | [] => pure []
  | e :: rest => do return (← evaluate read e) :: (← evaluateList read rest)

/-- The value of a condition's chosen branch; a missing argument counts as 0. -/
def evaluateConditional (read : String → ExceptT Fault m Value) :
    List Expr → ExceptT Fault m Value
  | [] => pure (.int 0)
  | [condition] => do
    let _ ← evaluate read condition
    return .int 0
  | [condition, yes] => do
    if (← evaluate read condition).isTruthy then evaluate read yes else return .int 0
  | condition :: yes :: no :: _ => do
    if (← evaluate read condition).isTruthy then evaluate read yes else evaluate read no

end

end Expr

end Spreadsheet
