import Std.Data.HashMap
import Spreadsheet.Formula.Evaluation
import Spreadsheet.Formula.Parsing
import Spreadsheet.Sheet.Content
import Spreadsheet.Sheet.Unchecked

/-!
# Evaluation sessions

A session computes cells on demand and remembers each value for its duration. A cell whose formula
fails reads as 0, and the failure is recorded under its label; so is a cell that is read while its
own formula is running, as a cycle.

Before a formula runs, the formulas that it reads in any case are computed, deepest first, by a
walk with an explicit stack (`walk`), so chains of cells do not nest. Only what is read in a branch
of `IF` is computed while the formula runs. The cells whose formulas have been started and not
finished are marked as running (`State.running`).

A formula with a numeral too long to be read ends a walk with a fault that no cell takes up. The
cell that the walk had just marked then stays marked.

Nesting is bounded by the number of formulas, since each nested formula is marked; `start` takes
that bound as its first argument, and `walk` a bound on its steps.

The cells hold scalars or other contents (`Content`), and the computations may keep more than the
state of a session: they are in any monad that keeps that. `read` has nothing more.
-/

namespace Spreadsheet

/-- What a session reads: the content of each cell, and the labels of the formula cells. -/
structure Source (α : Type := Scalar) where
  cell : String → α
  formulas : List String

section

variable {α : Type} [Content α]

/-- Cells, indexed by label. -/
def Source.ofCells (cells : OrderedMap String α) : Source α :=
  let index := Std.HashMap.ofList cells
  { cell := fun label => index[label]?.getD Content.empty
    formulas := (cells.filter fun (_, content) => Content.isFormula content).map Prod.fst }

/-- The value that a cell without a formula reads as. -/
def Source.literal (src : Source α) (label : String) : α :=
  Content.reading (src.cell label)

/-- Does the cell hold a formula? -/
def Source.HasFormula (src : Source α) (label : String) : Prop :=
  Content.isFormula (src.cell label) = true

end

/-- The cells of a sheet. -/
def Sheet.source (s : Sheet) : Source :=
  .ofCells s.cells

/-- The cells of a sheet that has not been checked. -/
def Sheet.Unchecked.source (s : Unchecked) : Source Value :=
  .ofCells s.cells

namespace Session

/-- Why a cell reads as 0 although it holds a formula. -/
inductive CellError where
  | cycle
  | fault (f : Fault)
  deriving DecidableEq, Repr

/-- The text recorded for a failed cell. -/
def CellError.message : CellError → String
  | cycle => "#CYCLE!"
  | fault f => f.message

/-- What a session knows: the values found, the failures in the order of the first one of each
cell, and the cells whose formulas are running. -/
structure State (α : Type := Scalar) where
  memo : Std.HashMap String α := {}
  errors : OrderedMap String CellError := []
  running : List String := []

namespace State

variable {α : Type}

/-- Records the value of a cell. -/
def remember (key : String) (value : α) (s : State α) : State α :=
  { s with memo := s.memo.insert key value }

/-- Records the failure of a cell. -/
def fail (key : String) (e : CellError) (s : State α) : State α :=
  { s with errors := s.errors.insert key e }

/-- Marks a cell as running. -/
def mark (key : String) (s : State α) : State α :=
  { s with running := key :: s.running }

/-- Takes the mark off a cell. -/
def unmark (key : String) (s : State α) : State α :=
  { s with running := s.running.filter (· != key) }

end State

/-- A computation in a session with nothing but its state, over cells of a kind. -/
abbrev RunOver (α : Type) := ExceptT Fault (StateM (State α))

/-- A computation in a session over scalars; a fault that it ends with leaves the session's state in
place. -/
abbrev Run := RunOver Scalar

variable {α : Type} [Content α]

/-! ### What a formula comes to -/

/-- The text of a formula without its `=`. -/
def bodyText (formula : String) : String :=
  Text.trim (String.ofList ((Text.trimList formula.toList).drop 1))

/-- What a cell takes from the value of its formula, or the failure that a range is. -/
def cellResult (formula : String) : Except Fault Value → Except Fault α
  | .ok v =>
    match Content.ofValue? v with
    | some content => .ok content
    | none => .error (.rangeAsValue (bodyText formula))
  | .error f => .error f

/-- Records what the formula of a cell came to, and gives the value that the cell reads as: 0 if
the formula failed or a cycle was closed on the cell while it ran. -/
def settle (key : String) (result : Except Fault α) (s : State α) : α × State α :=
  match result with
  | .ok v =>
    let value := if s.errors.contains key then Content.zero else v
    (value, s.remember key value)
  | .error f => (Content.zero, (s.fail key (.fault f)).remember key Content.zero)

/-! ### What a formula reads in any case -/

/-- The labels that references stand for; malformed ranges are left for the formula to meet. -/
def expand : List Reference → Except Fault (List String)
  | [] => .ok []
  | r :: rest =>
    match r.labels with
    | .ok labels => do return labels ++ (← expand rest)
    | .error (.badReference ..) => expand rest
    | .error f => .error f

/-- The labels that a formula reads in any case; none if the formula has no tree. -/
def dependencies (formula : String) : Except Fault (List String) :=
  match Formula.ofText formula with
  | .ok tree => expand tree.eagerReferences
  | .error (.badSyntax ..) => .ok []
  | .error f => .error f

/-- A cell on the stack of a walk, with the labels that it reads and that are still to be looked
at. -/
structure Frame where
  label : String
  pending : List String

/-- Takes the marks off the cells on a stack but the lowest, which the walk has not marked. -/
def unmarkAbove (stack : List Frame) (s : State α) : State α :=
  stack.dropLast.foldl (fun s frame => s.unmark frame.label) s

/-! ### One formula -/

section

variable {m : Type → Type} [Monad m]

/-- The value of a formula's text, the cells being read by `read`. -/
def formulaValue (read : String → ExceptT Fault m α) (formula : String) :
    ExceptT Fault m Value := do
  let tree ← pureResult (Formula.ofText formula)
  tree.evaluate fun label => do return Content.toValue (← read label)

variable [MonadStateOf (State α) m]

/-- Runs the formula of a cell that has been marked, and remembers its value. -/
def evaluateCell (read : String → ExceptT Fault m α) (key formula : String) : m α := do
  let result ← (formulaValue read formula).run
  modifyGet (settle key (cellResult formula result))

/-! ### The cells read in any case -/

variable (src : Source α)

/-- The text of the formula at a label. -/
def formulaAt (label : String) : String :=
  Content.textIn (src.cell label)

/-- Does a cell need no computation before a formula that reads it: it holds no formula, or its
value is known, or its formula is running? -/
def isSettled (s : State α) (label : String) : Bool :=
  !Content.isFormula (src.cell label) || s.memo.contains label || s.running.contains label

/-- Computes the cells that the lowest cell of the stack reads in any case, deepest first. The
first argument bounds the number of steps. -/
def walk (evaluate : String → String → m α) : Nat → List Frame → ExceptT Fault m Unit
  | _, [] => pure ()
  | 0, _ :: _ => throw .nestedTooDeep
  | steps + 1, frame :: below => do
    let s ← get
    match frame.pending.dropWhile (isSettled src s) with
    | [] =>
      if below.isEmpty then pure ()
      else do
        let _ ← (evaluate frame.label (formulaAt src frame.label) : m α)
        modify (State.unmark frame.label)
        walk evaluate steps below
    | label :: pending => do
      modify (State.mark label)
      let stack := { frame with pending } :: below
      match dependencies (formulaAt src label) with
      | .ok labels => walk evaluate steps (⟨label, labels⟩ :: stack)
      | .error f =>
        modify (unmarkAbove stack)
        throw f

/-- Computes the cells that a formula reads in any case, in at most so many steps. -/
def prefetch (steps : Nat) (evaluate : String → String → m α) (key formula : String) :
    ExceptT Fault m Unit := do
  let labels ← pureResult (dependencies formula)
  walk src evaluate steps [⟨key, labels⟩]

/-! ### Reading cells -/

/-- Reads a cell; a formula that has not been started is started by `start`. -/
def look (start : String → String → ExceptT Fault m α) (label : String) : ExceptT Fault m α := do
  let key := Label.normalize label
  let s ← get
  match s.memo[key]? with
  | some v => return v
  | none =>
    if s.running.contains key then
      modify (State.fail key .cycle)
      return Content.zero
    else if Content.isFormula (src.cell key) then start key (formulaAt src key)
    else
      modify (State.remember key (src.literal key))
      return src.literal key

/-- Computes a cell with a formula that has not been started: the cells that the formula reads in
any case, in at most so many steps, and then the formula, by `evaluate`. -/
def compute (steps : Nat) (evaluate : String → String → m α) (key formula : String) :
    ExceptT Fault m α := ExceptT.mk do
  modify (State.mark key)
  let computed : ExceptT Fault m α := do
    prefetch src steps evaluate key formula
    evaluate key formula
  let result ← computed.run
  modify (State.unmark key)
  return result

/-- Computes a cell with a formula that has not been started, where at most the given number of
formulas nest. Formulas are run by `evaluate`, with a reader of cells. -/
def startBy (evaluate : (String → ExceptT Fault m α) → String → String → m α) (steps : Nat) :
    Nat → String → String → ExceptT Fault m α
  | 0, _, _ => throw .nestedTooDeep
  | depth + 1, key, formula =>
    compute src steps (evaluate (look src (startBy evaluate steps depth))) key formula

/-! ### Reading many cells -/

/-- Reads the cells of a range, row by row, each by `read`. -/
def readRangeBy (read : String → ExceptT Fault m α) (first last : String) :
    ExceptT Fault m (List α) := do
  (← pureResult (Range.labels (first ++ ":" ++ last))).mapM read

/-- Reads every formula cell by `read`. -/
def readAllBy (read : String → ExceptT Fault m α) : ExceptT Fault m (List (String × α)) :=
  src.formulas.mapM fun label => do return (label, ← read label)

end

/-! ### Sessions -/

variable (src : Source α)

/-- How many steps a walk needs: each formula is put on the stack once and taken off once. -/
def walkBound : Nat := 2 * src.formulas.length + 1

/-- Computes a cell with a formula that has not been started, where at most the given number of
formulas nest. -/
def start : Nat → String → String → RunOver α α :=
  startBy src evaluateCell (walkBound src)

/-- Reads a cell. -/
def read (label : String) : RunOver α α :=
  look src (start src src.formulas.length) label

/-- Reads the cells of a range, row by row. -/
def readRange (first last : String) : RunOver α (List α) :=
  readRangeBy (read src) first last

/-- Reads every formula cell. -/
def readAll : RunOver α (List (String × α)) :=
  readAllBy src (read src)

end Session

end Spreadsheet
