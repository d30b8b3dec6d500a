import Spreadsheet.Value.Basic

/-!
# Formula trees

A formula combines literals and references by operators and function calls.
-/

namespace Spreadsheet

/-- The operators between two operands. -/
inductive Operator where
  | add | sub | mul | div
  | eq | ne | gt | ge | lt | le
  deriving DecidableEq, Repr

/-- How tightly an operator binds; a comparison binds least. -/
inductive Tier where
  | comparison | sum | product
  deriving DecidableEq, Repr

namespace Operator

def tier : Operator → Tier
  | mul | div => .product
  | add | sub => .sum
  | eq | ne | gt | ge | lt | le => .comparison

def symbol : Operator → String
  | add => "+"
  | sub => "-"
  | mul => "*"
  | div => "/"
  | eq => "="
  | ne => "!="
  | gt => ">"
  | ge => ">="
  | lt => "<"
  | le => "<="

/-- All operators. -/
def all : List Operator := [add, sub, mul, div, eq, ne, gt, ge, lt, le]

end Operator

/-- The tree of a formula. -/
inductive Expr where
  | literal (v : Value)
  | cell (label : String)
  | range (start stop : String)
  | neg (operand : Expr)
  | binary (op : Operator) (left right : Expr)
  | call (name : String) (args : List Expr)
  /-- Two operands with a symbol between them that is no operator. -/
  | unsupported (symbol : String) (left right : Expr)
  /-- Something that is no formula, of the given kind. -/
  | foreign (kind : String)
  deriving Inhabited

end Spreadsheet
