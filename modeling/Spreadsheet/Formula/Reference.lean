import Spreadsheet.Formula.Expr
import Spreadsheet.Range

/-!
# References

The cells and ranges that a formula mentions, each once, in the order in which they stand in it:
all of them (`Expr.references`), and those that are read whatever the conditions say
(`Expr.eagerReferences`), which leaves out the branches of `IF`.

Both walk the tree with a list of the parts still to visit, so a tree of any depth is visited
without nesting.
-/

namespace Spreadsheet

/-- A cell or a range that a formula mentions. -/
inductive Reference where
  | cell (label : String)
  | range (start stop : String)
  deriving DecidableEq, Repr

namespace Reference

/-- The reference as it stands in a formula. -/
def text : Reference → String
  | cell label => label
  | range start stop => start ++ ":" ++ stop

/-- The labels of the cells referred to, row by row. -/
def labels : Reference → Except Fault (List String)
  | cell label => .ok [label]
  | range start stop => Range.labels (start ++ ":" ++ stop)

/-- Adds a reference at the end of a list, unless one with its text is there. -/
def addTo (met : List Reference) (r : Reference) : List Reference :=
  if met.any (·.text == r.text) then met else met ++ [r]

end Reference

namespace Expr

/-- How many parts a tree has. -/
def size : Expr → Nat
  | literal _ | cell _ | range _ _ | foreign _ => 1
  | neg e => e.size + 1
  | binary _ l r | unsupported _ l r => l.size + r.size + 1
  | call _ args => sizes args + 1
where
  /-- How many parts the trees of a list have. -/
  sizes : List Expr → Nat
    | [] => 0
    | e :: rest => e.size + sizes rest

theorem sizes_append (a b : List Expr) : size.sizes (a ++ b) = size.sizes a + size.sizes b := by
  induction a with
  | nil => simp [size.sizes]
  | cons e rest ih => simp [size.sizes, ih]; omega

/-- Is it the name of the function that leaves out a branch? -/
def isConditional (name : String) : Bool :=
  Text.upper name = "IF"

/-- Which arguments of a call are read whatever the conditions say. -/
def eagerArguments (name : String) (args : List Expr) : List Expr :=
  if isConditional name then args.take 1 else args

theorem sizes_eagerArguments_le (name : String) (args : List Expr) :
    size.sizes (eagerArguments name args) ≤ size.sizes args := by
  unfold eagerArguments
  split
  · cases args with
    | nil => simp
    | cons e rest => simp [size.sizes]
  · exact Nat.le_refl _

/-- Visits the trees of a list in order and adds the references met to `met`; of a call it visits
the arguments that `visited` selects. -/
def collect (visited : String → List Expr → List Expr)
    (hv : ∀ name args, size.sizes (visited name args) ≤ size.sizes args) (met : List Reference) :
    List Expr → List Reference
  | [] => met
  | .cell label :: rest => collect visited hv (Reference.addTo met (.cell label)) rest
  | .range start stop :: rest => collect visited hv (Reference.addTo met (.range start stop)) rest
  | .neg e :: rest => collect visited hv met (e :: rest)
  | .binary _ l r :: rest => collect visited hv met (l :: r :: rest)
  | .unsupported _ l r :: rest => collect visited hv met (l :: r :: rest)
  | .call name args :: rest => collect visited hv met (visited name args ++ rest)
  | .literal _ :: rest => collect visited hv met rest
  | .foreign _ :: rest => collect visited hv met rest
termination_by pending => size.sizes pending
decreasing_by
  all_goals simp only [size.sizes, size, sizes_append]
  any_goals omega
  have h := hv name args
  omega

/-- All references of a tree. -/
def references (e : Expr) : List Reference :=
  collect (fun _ args => args) (fun _ _ => Nat.le_refl _) [] [e]

/-- The references of a tree that are read whatever the conditions say. -/
def eagerReferences (e : Expr) : List Reference :=
  collect eagerArguments sizes_eagerArguments_le [] [e]

end Expr

end Spreadsheet
