import Spreadsheet.Sheet.Literal

/-!
# What cells hold

The cells of a sheet hold scalars. Those of a sheet that has been changed without checks may hold
lists and maps as well. Sessions and grids see no more of the content of a cell than is here, so
they are the same for both kinds of sheets (`Content`).
-/

namespace Spreadsheet

/-- The contents of cells of a kind: scalars, and whatever else such cells may hold. -/
class Content (α : Type) where
  /-- A scalar in a cell. -/
  ofScalar : Scalar → α
  /-- The content of a cell as an operand. -/
  toValue : α → Value
  /-- What a cell takes from the value of its formula, if it takes it. -/
  ofValue? : Value → Option α

instance : Content Scalar where
  ofScalar v := v
  toValue := .scalar
  ofValue?
    | .scalar v => some v
    | _ => none

instance : Content Value where
  ofScalar := .scalar
  toValue v := v
  ofValue?
    | .list _ => none
    | v => some v

namespace Content

variable {α : Type} [Content α]

/-- Nothing, as an empty cell holds it. -/
def empty : α := ofScalar .null

/-- What a failed cell reads as. -/
def zero : α := ofScalar (.int 0)

/-- The scalar that a cell holds, if it holds one. -/
def scalar? (content : α) : Option Scalar :=
  match toValue content with
  | .scalar v => some v
  | _ => none

/-- Does the cell hold a formula? -/
def isFormula (content : α) : Bool :=
  (toValue content).isFormula

/-- The text in a cell; empty if the cell holds no text. -/
def textIn (content : α) : String :=
  match scalar? content with
  | some (.text s) => s
  | _ => ""

/-- The content of a cell without a formula as it is meant. -/
def literalValue (content : α) : α :=
  (scalar? content).elim content fun v => ofScalar v.literalValue

/-- Does the cell hold nothing? -/
def isNull (content : α) : Bool :=
  scalar? content = some .null

/-- What a cell without a formula reads as: 0 if it holds nothing. -/
def reading (content : α) : α :=
  if isNull content then zero else literalValue content

@[simp] theorem zero_scalar : (zero : Scalar) = .int 0 := rfl

@[simp] theorem ofScalar_scalar (v : Scalar) : (ofScalar v : Scalar) = v := rfl

@[simp] theorem toValue_scalar (v : Scalar) : toValue v = .scalar v := rfl

@[simp] theorem isFormula_scalar (v : Scalar) : isFormula v = v.isFormula := rfl

@[simp] theorem textIn_text (s : String) : textIn (Scalar.text s) = s := rfl

@[simp] theorem literalValue_scalar (v : Scalar) : literalValue v = v.literalValue := rfl

@[simp] theorem isNull_scalar (v : Scalar) : isNull v = decide (v = .null) := by
  simp [isNull, scalar?]

theorem reading_scalar (v : Scalar) :
    reading v = if v = .null then .int 0 else v.literalValue := by
  simp [reading]

end Content

end Spreadsheet
