import Spreadsheet.Sheet.Basic
import Spreadsheet.Value.Integer

/-!
# Sheets as data

A sheet is written as a map with its name, its rows and columns, and a map of cells. A cell is
written as a map with its formula under `f` or its literal under `v`. In reading, a cell may also
stand for itself. All defects of the data are reported together.
-/

namespace Spreadsheet

namespace Sheet

/-! ### Writing -/

/-- A cell as data. -/
def cellToWire (v : Scalar) : Value :=
  if v.isFormula then .ofFields [("f", .scalar v)] else .ofFields [("v", .scalar v.literalValue)]

/-- A sheet as data. -/
def toWire (s : Sheet) : Value :=
  .ofFields [
    ("name", .text s.name),
    ("rows", .int s.rows),
    ("cols", .int s.cols),
    ("cells", .ofFields (s.cells.map fun (label, v) => (label, cellToWire v)))]

/-! ### Reading -/

/-- A place in the data of a sheet that is not as it has to be. -/
inductive Defect where
  | name
  | rows
  | cols
  /-- The cells are no map, or hold a key that is no label. -/
  | cells (badKey : Option Scalar)
  /-- The cell with the given label holds no scalar. -/
  | cell (label : String)
  deriving DecidableEq, Repr

/-- Where a defect lies. -/
def Defect.place : Defect → String
  | name => "name"
  | rows => "rows"
  | cols => "cols"
  | cells _ => "cells"
  | cell label => "cells." ++ label

/-- Why no sheet could be read. -/
inductive LoadError where
  | unreadable (path : String)
  | notText
  | unparseable (path : String)
  | notMapping (kind : String)
  | invalid (defects : List Defect)
  /-- A decimal numeral with more digits than can be read. -/
  | numeralTooLong (digits : Nat)
  /-- An exception of a parser that does not say that the text is malformed, by its class and its
  text. -/
  | raised (exception text : String)
  deriving Repr

/-- The text of a failure to read a sheet. -/
def LoadError.message : LoadError → String
  | unreadable path =>
    s!"Cannot read sheet file {path}: [Errno 2] No such file or directory: {Text.quoted path}"
  | notText => "The sheet file is not UTF-8 text"
  | unparseable path => "Cannot parse sheet file " ++ path
  | notMapping kind => "Sheet must be a mapping, got " ++ kind
  | invalid defects => "Invalid sheet: " ++ ", ".intercalate (defects.map Defect.place)
  | numeralTooLong digits => (Fault.numeralTooLong digits).message
  | raised _ text => text

/-- Is the failure reported as one of the sheet file? No caller foresees the others. -/
def LoadError.isReported : LoadError → Bool
  | notText | numeralTooLong _ | raised .. => false
  | _ => true

/-- A size of the grid: positive. -/
def size? (v : Option Value) : Option { n : Nat // 0 < n } :=
  match v.bind Value.integer? with
  | some (.ofNat (n + 1)) => some ⟨n + 1, Nat.succ_pos n⟩
  | _ => none

/-- The data of a literal under `v`; nothing if there is none. -/
def literalOfWire : Option Value → Value
  | none => .null
  | some (.scalar v) => .scalar v.quoteLiteral
  | some v => v

/-- A cell's data with a map turned into the formula or the literal in it. -/
def cellOfWire : Value → Value
  | .map entries =>
    match Value.field? entries "f" with
    | some (.scalar f) =>
      if f.isFormula then .scalar f.trimFormula else literalOfWire (Value.field? entries "v")
    | _ => literalOfWire (Value.field? entries "v")
  | v => v

/-- The label that a key is; `none` if it is none. -/
def keyLabel? : Scalar → Option String
  | .text s => if Label.isLabel (Label.normalize s) then some (Label.normalize s) else none
  | _ => none

/-- The data of the cells by label, or the first key that is no label. -/
def labelled (entries : List (Scalar × Value)) : Except Scalar (OrderedMap String Value) :=
  entries.foldlM (fun m (key, v) =>
    match keyLabel? key with
    | some label => .ok (m.insert label (cellOfWire v))
    | none => .error key) []

/-- The cells whose data are scalars, and the defects of the others. -/
def scalarCells (cells : OrderedMap String Value) : OrderedMap String Scalar × List Defect :=
  (cells.filterMap fun (label, v) => match v with
    | .scalar s => some (label, s)
    | _ => none,
   cells.filterMap fun (label, v) => match v with
    | .scalar _ => none
    | _ => some (.cell label))

/-- The cells of a sheet's data, and their defects. -/
def cellsOfWire : Option Value → OrderedMap String Scalar × List Defect
  | none => ([], [])
  | some (.map entries) =>
    match labelled entries with
    | .ok cells => scalarCells cells
    | .error key => ([], [.cells (some key)])
  | some _ => ([], [.cells none])

/-- The name of a sheet's data. -/
def nameOfWire : Option Value → Except Defect String
  | none => .ok "main"
  | some (.scalar (.text s)) => .ok s
  | some _ => .error .name

/-- The sheet that data describe. -/
def ofWire : Value → Except LoadError Sheet
  | .map entries =>
    let (cells, cellDefects) := cellsOfWire (Value.field? entries "cells")
    match nameOfWire (Value.field? entries "name"), size? (Value.field? entries "rows"),
      size? (Value.field? entries "cols"), cellDefects with
    | .ok name, some ⟨rows, rows_pos⟩, some ⟨cols, cols_pos⟩, [] =>
      .ok { name, rows, cols, cells, rows_pos, cols_pos }
    | name, rows, cols, defects =>
      .error (.invalid ((match name with | .ok _ => [] | .error d => [d]) ++
        (if rows.isNone then [.rows] else []) ++ (if cols.isNone then [.cols] else []) ++ defects))
  | v => .error (.notMapping v.kind)

end Sheet

end Spreadsheet
