import Spreadsheet.Formula.Token

/-!
# From tokens to trees

Tokens are taken one after the other. At each level of brackets the operands wait that still lack
their right neighbour, at most one for each tier of operators, and the unary minuses before the
operand to come (`Waiting`). An operator that binds less tightly, a closing bracket, a comma and the
end complete what waits.

A token that no formula can have at its place is refused there, so a fault names the first token
that cannot go on from those before it. A number becomes an integer or a floating point number when
the token after it completes it as an operand.

Main statement: `ofBody_blank` (a blank text ends too early, at its start).
-/

namespace Spreadsheet.Formula

/-- The operands at one level of brackets that wait for their right neighbour, by tier, and the
unary minuses before the next operand. -/
structure Waiting where
  comparison : Option (Expr × Operator) := none
  sum : Option (Expr × Operator) := none
  product : Option (Expr × Operator) := none
  minuses : Nat := 0

namespace Waiting

/-- Joins a waiting operand with its right neighbour. -/
def join (waiting : Option (Expr × Operator)) (right : Expr) : Expr :=
  match waiting with
  | some (left, op) => .binary op left right
  | none => right

/-- An operand under unary minuses. -/
def negate : Nat → Expr → Expr
  | 0, e => e
  | n + 1, e => .neg (negate n e)

/-- The product that an operand completes. -/
def product' (w : Waiting) (e : Expr) : Expr :=
  join w.product (negate w.minuses e)

/-- The sum that an operand completes. -/
def sum' (w : Waiting) (e : Expr) : Expr :=
  join w.sum (w.product' e)

/-- The comparison that an operand completes: all that waits. -/
def comparison' (w : Waiting) (e : Expr) : Expr :=
  join w.comparison (w.sum' e)

/-- What waits after an operand and the operator to its right. -/
def push (w : Waiting) (e : Expr) (op : Operator) : Waiting :=
  match op.tier with
  | .product => { w with product := some (w.product' e, op), minuses := 0 }
  | .sum => { comparison := w.comparison, sum := some (w.sum' e, op) }
  | .comparison => { comparison := some (w.comparison' e, op) }

end Waiting

/-- An open bracket: around an expression, or around the arguments of a call, those read so far
last first. What waits outside is kept. -/
inductive Bracket where
  | group (outer : Waiting)
  | call (outer : Waiting) (name : String) (args : List Expr)

/-- An operand that has been read. A name is an operand or the start of a call, and a cell an
operand or the start of a range. -/
inductive Atom where
  | number (text : String)
  | name (letters : String)
  | cell (label : String)
  | whole (e : Expr)

/-- What has been read last. -/
inductive Mode where
  /-- An operand has to follow, or the end of a call if its bracket has just been opened. -/
  | before (opened : Bool)
  | after (atom : Atom)
  /-- The second corner of a range has to follow. -/
  | corner (start : String)

/-- Where reading a formula stands, the innermost open bracket first. -/
structure State where
  brackets : List Bracket
  waiting : Waiting
  mode : Mode

/-- Why a token, or the end, is refused. -/
inductive Refusal where
  | unexpected
  | numeralTooLong (digits : Nat)

/-- The number that the text of a number stands for: an integer if it has no point. -/
def numberOf (text : String) : Except Refusal Number :=
  let cs := text.toList
  if cs.contains '.' then
    .ok (.float ((Decimal.read? cs).getD (Binary64.zero false)))
  else if cs.length ≤ numeralLimit then .ok (.int (Text.digitsValue cs))
  else .error (.numeralTooLong cs.length)

/-- The tree of an operand. A name alone reads as zero. -/
def Atom.toExpr : Atom → Except Refusal Expr
  | number text => do return .literal (.scalar (.number (← numberOf text)))
  | name _ => .ok (.literal (.int 0))
  | cell label => .ok (.cell label)
  | whole e => .ok e

namespace State

/-- Nothing read. -/
def start : State := ⟨[], {}, .before false⟩

/-- An operand has been read. -/
def operand (s : State) (a : Atom) : State :=
  { s with mode := .after a }

/-- A bracket has been opened. -/
def openBracket (s : State) (b : Bracket) (isCall : Bool) : State :=
  ⟨b :: s.brackets, {}, .before isCall⟩

/-- A token where an operand has to follow. -/
def stepBefore (s : State) (opened : Bool) : Token → Except Refusal State
  | .number text => .ok (s.operand (.number text))
  | .name letters => .ok (s.operand (.name letters))
  | .cell label => .ok (s.operand (.cell label))
  | .leftParen => .ok (s.openBracket (.group s.waiting) false)
  | .op .sub =>
    .ok { s with waiting := { s.waiting with minuses := s.waiting.minuses + 1 }, mode := .before false }
  | .rightParen =>
    match opened, s.brackets with
    | true, .call outer name args :: rest =>
      .ok ⟨rest, outer, .after (.whole (.call name args.reverse))⟩
    | _, _ => .error .unexpected
  | _ => .error .unexpected

/-- A closing bracket after an operand. -/
def close (s : State) (e : Expr) : Except Refusal State :=
  let e := s.waiting.comparison' e
  match s.brackets with
  | .group outer :: rest => .ok ⟨rest, outer, .after (.whole e)⟩
  | .call outer name args :: rest =>
    .ok ⟨rest, outer, .after (.whole (.call name (e :: args).reverse))⟩
  | [] => .error .unexpected

/-- A comma after an operand. -/
def separate (s : State) (e : Expr) : Except Refusal State :=
  let e := s.waiting.comparison' e
  match s.brackets with
  | .call outer name args :: rest => .ok ⟨.call outer name (e :: args) :: rest, {}, .before false⟩
  | _ => .error .unexpected

/-- A token after an operand. -/
def stepAfter (s : State) (a : Atom) : Token → Except Refusal State
  | .op o => do return ⟨s.brackets, s.waiting.push (← a.toExpr) o, .before false⟩
  | .rightParen => do s.close (← a.toExpr)
  | .comma => do s.separate (← a.toExpr)
  | .leftParen =>
    match a with
    | .name letters => .ok (s.openBracket (.call s.waiting letters []) true)
    | _ => .error .unexpected
  | .colon =>
    match a with
    | .cell label => .ok { s with mode := .corner label }
    | _ => .error .unexpected
  | _ => .error .unexpected

/-- The second corner of a range. -/
def stepCorner (s : State) (start : String) : Token → Except Refusal State
  | .cell label => .ok (s.operand (.whole (.range start label)))
  | _ => .error .unexpected

/-- One token. -/
def step (s : State) (t : Token) : Except Refusal State :=
  match s.mode with
  | .before opened => s.stepBefore opened t
  | .after a => s.stepAfter a t
  | .corner start => s.stepCorner start t

/-- The tree after the last token. -/
def finish (s : State) : Except Refusal Expr :=
  match s.mode with
  | .after a => do
    let e ← a.toExpr
    if s.brackets.isEmpty then return s.waiting.comparison' e else throw .unexpected
  | _ => .error .unexpected

end State

/-! ### Faults with their places -/

/-- The fault of a refusal, where `reason` and `position` describe what came unexpected. -/
def Refusal.fault (reason : SyntaxError) (position : Nat) : Refusal → Fault
  | unexpected => .badSyntax reason position
  | numeralTooLong digits => .numeralTooLong digits

/-- One token with its place. -/
def State.stepPlaced (s : State) (t : Placed) : Except Fault State :=
  (s.step t.token).mapError (Refusal.fault (.unexpectedToken t.token.text) t.start)

/-- The tree of tokens, `length` being the length of the text. -/
def ofScan (scan : Scan) (length : Nat) : Except Fault Expr := do
  let s ← scan.tokens.foldlM State.stepPlaced State.start
  match scan.fault with
  | some fault => throw fault
  | none => s.finish.mapError (Refusal.fault .unexpectedEnd length)

/-- The tree of a formula's text after its `=`. -/
def ofBody (body : String) : Except Fault Expr :=
  if body.toList.all Text.isBlank then .error (.badSyntax .unexpectedEnd 0)
  else ofScan (Scan.ofBody body) body.length

/-- The tree of a formula. -/
def ofText (text : String) : Except Fault Expr :=
  match Text.trimList text.toList with
  | '=' :: body => ofBody (String.ofList body)
  | _ => .error (.badSyntax .missingEquals 0)

theorem ofBody_blank {body : String} (h : body.toList.all Text.isBlank) :
    ofBody body = .error (.badSyntax .unexpectedEnd 0) := by
  simp only [ofBody, h, if_true]

end Spreadsheet.Formula
