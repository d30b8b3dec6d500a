import Spreadsheet.Number
import Spreadsheet.OrderedMap
import Spreadsheet.Text.Blank

/-!
# Values

A cell holds a scalar: nothing, a truth value, a number or a text. Decoded data and the values of
formulas may also be lists and maps.
-/

namespace Spreadsheet

/-- What a cell holds. -/
inductive Scalar where
  | null
  | bool (b : Bool)
  | number (n : Number)
  | text (s : String)
  deriving DecidableEq, Repr, Inhabited

namespace Scalar

/-- An integer. -/
abbrev int (n : Int) : Scalar := .number (.int n)

/-- A floating point number. -/
abbrev float (x : Binary64) : Scalar := .number (.float x)

/-- The number that a truth value or a number is. -/
def number? : Scalar → Option Number
  | bool b => some (.int (if b then 1 else 0))
  | number n => some n
  | _ => none

/-- Are two map keys one? Truth values and numbers are compared as numbers. -/
def sameKey (a b : Scalar) : Bool :=
  match a.number?, b.number? with
  | some x, some y => x.order? y = some .eq
  | none, none => a = b
  | _, _ => false

/-- Is it a text whose first character that is no blank is an equals sign? -/
def isFormula : Scalar → Bool
  | text s => (s.toList.dropWhile Text.isBlank).head? = some '='
  | _ => false

/-- Does it count as true in a condition? Zero, not-a-number, nothing and the empty text do not. -/
def isTruthy : Scalar → Bool
  | null => false
  | bool b => b
  | number n => !n.isZero && !n.isNaN
  | text s => !s.isEmpty

end Scalar

/-- Decoded data, and the value of a formula. -/
inductive Value where
  | scalar (s : Scalar)
  | list (items : List Value)
  | map (entries : List (Scalar × Value))
  deriving Inhabited, Repr

namespace Value

/-- Nothing. -/
abbrev null : Value := .scalar .null

/-- An integer. -/
abbrev int (n : Int) : Value := .scalar (.int n)

/-- A text. -/
abbrev text (s : String) : Value := .scalar (.text s)

/-- A map from texts. -/
def ofFields (fields : List (String × Value)) : Value :=
  .map (fields.map fun (k, v) => (.text k, v))

/-- The value under a key of a map; nothing if there is none. -/
def field? (entries : OrderedMap Scalar Value) (key : String) : Option Value :=
  (entries.find? fun (k, _) => k.sameKey (.text key)).map Prod.snd

/-- The map of a list of keys and values, later values of a key replacing earlier ones. -/
def mapOfList (entries : List (Scalar × Value)) : OrderedMap Scalar Value :=
  entries.foldl (fun m (k, v) => OrderedMap.insertBy Scalar.sameKey k v m) []

/-- Is the value something other than nothing, false, zero and what is empty? -/
def isFilled : Value → Bool
  | scalar .null => false
  | scalar (.bool b) => b
  | scalar (.number n) => !n.isZero
  | scalar (.text s) => !s.isEmpty
  | list items => !items.isEmpty
  | map entries => !entries.isEmpty

/-- Is the value a text that is a formula? -/
def isFormula : Value → Bool
  | scalar s => s.isFormula
  | _ => false

end Value

end Spreadsheet
