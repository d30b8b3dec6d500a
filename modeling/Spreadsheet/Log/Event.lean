import Spreadsheet.Json.Writing
import Spreadsheet.Log.Redaction
import Spreadsheet.Text.Utf8
import Spreadsheet.Value.Integer

/-!
# Events

What the log of a project keeps: an event of one of six kinds, with a level, a message and a context
of further values. Each kind has keys that the context should hold. An event whose context lacks one
is kept as a warning that names the missing keys.

Main statement: `attributed_of_complete` (an event that lacks nothing stays as it is).
-/

namespace Spreadsheet.Log

/-- How serious an event is. -/
inductive Level where
  | info
  | warning
  | error
  deriving DecidableEq, Repr

namespace Level

/-- The name of a level. -/
def name : Level → String
  | info => "info"
  | warning => "warning"
  | error => "error"

/-- The level of a name. -/
def ofName? (s : String) : Option Level :=
  [info, warning, error].find? (·.name == s)

end Level

/-- What an event tells. -/
inductive Kind where
  | sheetEvaluated
  | sheetRejected
  | cellError
  | cellCycle
  | valueRefResolved
  | valueRefUnresolved
  deriving DecidableEq, Repr

namespace Kind

/-- The name of a kind. -/
def name : Kind → String
  | sheetEvaluated => "sheet_evaluated"
  | sheetRejected => "sheet_rejected"
  | cellError => "cell_error"
  | cellCycle => "cell_cycle"
  | valueRefResolved => "value_ref_resolved"
  | valueRefUnresolved => "value_ref_unresolved"

/-- The kind of a name. -/
def ofName? (s : String) : Option Kind :=
  [sheetEvaluated, sheetRejected, cellError, cellCycle, valueRefResolved, valueRefUnresolved].find?
    (·.name == s)

/-- The keys that the context of an event should hold, in order. -/
def requiredKeys : Kind → List String
  | sheetEvaluated => ["sheet_name"]
  | sheetRejected => []
  | cellError | cellCycle => ["cell", "sheet_name"]
  | valueRefResolved | valueRefUnresolved => ["value_ref"]

end Kind

/-- The values that come with an event. -/
abbrev Context := List (Scalar × Value)

/-- The context that a value is: a map from texts. -/
def Context.ofValue? : Value → Option Context
  | .map entries => if entries.all fun (k, _) => k matches .text _ then some entries else none
  | _ => none

/-- An event with the time at which it happened. -/
structure Event where
  time : String
  level : Level
  kind : Kind
  context : Context := []
  message : String := ""
  code : Option String := none
  schema : Int := 1

namespace Event

/-! ### What is kept -/

/-- The keys that the context of an event lacks. -/
def missingKeys (e : Event) : List String :=
  e.kind.requiredKeys.filter fun key => (Value.field? e.context key).isNone

/-- The event as a warning that names the missing keys, if there are any. -/
def attributed (e : Event) : Event :=
  let missing := e.missingKeys
  if missing.isEmpty then e
  else
    let names := Value.list (missing.map Value.text)
    { e with
      level := .warning
      context :=
        OrderedMap.insertBy Scalar.sameKey (.text "_missing_attribution") names e.context }

/-- The event as it is kept, its long texts cut. -/
def prepared (e : Event) : Event :=
  { e with context := Redaction.entries e.context }.attributed

/-! ### Lines of the log -/

/-- The key of a map as the log keeps it: a text. -/
def storedKey : Scalar → Except Fault Scalar
  | .bool b => .ok (.text (if b then "true" else "false"))
  | k => do return .text (← k.shown)

/-- A scalar as the log keeps it: nothing in place of numbers that are not finite. -/
def storedScalar : Scalar → Scalar
  | .number (.float x) => if x.isFinite then .float x else .null
  | v => v

mutual

/-- A value as the log keeps it. -/
def stored : Value → Except Fault Value
  | .scalar v => .ok (.scalar (storedScalar v))
  | .list items => do return .list (← storedItems items)
  | .map entries => do return .map (Value.mapOfList (← storedEntries entries))

/-- The items of a list as the log keeps them. -/
def storedItems : List Value → Except Fault (List Value)
  | [] => .ok []
  | v :: rest => do return (← stored v) :: (← storedItems rest)

/-- The entries of a map as the log keeps them. -/
def storedEntries : List (Scalar × Value) → Except Fault (List (Scalar × Value))
  | [] => .ok []
  | (k, v) :: rest => do return (← storedKey k, ← stored v) :: (← storedEntries rest)

end

/-- The event as a map. -/
def toValue (e : Event) : Value :=
  .ofFields [
    ("schema_version", .int e.schema),
    ("ts", .text e.time),
    ("level", .text e.level.name),
    ("event_type", .text e.kind.name),
    ("context", .map e.context),
    ("message", .text e.message),
    ("error_code", e.code.elim .null .text)]

/-- The line that the log keeps of an event. -/
def line (e : Event) : Except Fault (List UInt8) := do
  return Utf8.encode ((← Json.line (← stored e.toValue)).toList ++ ['\n'])

/-! ### Events given as data -/

/-- A text under a key, or a default. -/
def textField? (fields : Context) (key default : String) : Option String :=
  match Value.field? fields key with
  | none => some default
  | some (.scalar (.text s)) => some s
  | some _ => none

/-- The code under a key: a text or nothing. -/
def codeField? (fields : Context) (key : String) : Option (Option String) :=
  match Value.field? fields key with
  | none | some (.scalar .null) => some none
  | some (.scalar (.text s)) => some (some s)
  | some _ => none

/-- The event that fields describe; one without a time has the time `now`. -/
def ofFields? (now : String) (fields : Context) : Option Event := do
  let schema ← match Value.field? fields "schema_version" with
    | none => some 1
    | some v => v.integer?
  let time ← textField? fields "ts" now
  let level ← Level.ofName? (← textField? fields "level" "")
  let kind ← Kind.ofName? (← textField? fields "event_type" "")
  let context ← match Value.field? fields "context" with
    | none => some []
    | some v => Context.ofValue? v
  let message ← textField? fields "message" ""
  let code ← codeField? fields "error_code"
  return { time, level, kind, context, message, code, schema }

theorem attributed_of_complete {e : Event} (h : e.missingKeys = []) : e.attributed = e := by
  simp [attributed, h]

end Event

end Spreadsheet.Log
