import Spreadsheet.Log.Journal
import Spreadsheet.Text.UpperCase
import Spreadsheet.Value.Shown

/-!
# Queries

A query selects events of a journal, the latest first, by level, kind, sheet and cell, up to a limit.
An empty criterion selects all events. What a journal holds need not be events: a value that is no
map, or whose context is none where it is asked for, ends the query.
-/

namespace Spreadsheet.Log

/-- Which events are asked for. -/
structure Query where
  level : Option String := none
  kind : Option String := none
  sheet : Option String := none
  cell : Option String := none
  limit : Int := 200

namespace Query

/-- Why a query has no answer. -/
inductive Failure where
  /-- A value that should be a map and is none. -/
  | notMapping
  | unreadable (e : Unreadable)
  | fault (f : Fault)
  deriving Repr

/-- The greatest count of events that a query gives. -/
def greatestLimit : Int := 2000

/-- The entries of a map. -/
def entries : Value → Except Failure (List (Scalar × Value))
  | .map es => .ok es
  | _ => .error .notMapping

/-- A criterion that is neither left out nor empty. -/
def criterion (c : Option String) : Option String :=
  c.filter (!·.isEmpty)

/-- Does a map hold the text under the key, if there is a criterion? -/
def holds (c : Option String) (es : List (Scalar × Value)) (key : String) : Bool :=
  match criterion c, Value.field? es key with
  | none, _ => true
  | some s, some (.scalar v) => v = .text s
  | some _, _ => false

/-- What the context of an event holds under a key. An empty context, or none, holds nothing. -/
def contextField (event : List (Scalar × Value)) (key : String) :
    Except Failure (Option Value) :=
  match Value.field? event "context" with
  | none => .ok none
  | some v => if v.isFilled then do return Value.field? (← entries v) key else .ok none

/-- Is the event about the sheet that is asked for? -/
def ofSheet (q : Query) (event : List (Scalar × Value)) : Except Failure Bool :=
  match criterion q.sheet with
  | none => .ok true
  | some s => do
    match ← contextField event "sheet_name" with
    | some (.scalar v) => return v = .text s
    | _ => return false

/-- Is the event about the cell that is asked for, in any case? -/
def ofCell (q : Query) (event : List (Scalar × Value)) : Except Failure Bool :=
  match criterion ((criterion q.cell).map fun s => Text.upper (Text.trim s)) with
  | none => .ok true
  | some s => do
    let found := (← contextField event "cell").getD (.text "")
    return Text.upper (← found.shown.mapError .fault) == s

/-- Does an event answer the query? -/
def selects (q : Query) (v : Value) : Except Failure Bool := do
  let event ← entries v
  if !holds q.level event "level" then return false
  if !holds q.kind event "event_type" then return false
  if !(← q.ofSheet event) then return false
  q.ofCell event

/-- How many events the query gives at most; one at least. -/
def room (q : Query) : Nat :=
  max 1 (min q.limit greatestLimit).toNat

/-- The first `room + 1` of the values that answer the query. Nothing after them is looked at. -/
def select (q : Query) (room : Nat) : List Value → Except Failure (List Value)
  | [] => .ok []
  | v :: rest => do
    if ← q.selects v then
      match room with
      | 0 => return [v]
      | room + 1 => return v :: (← q.select room rest)
    else q.select room rest

/-- The events of a journal that answer the query, the latest first, where the last `size` octets of
the journal are read. -/
def answer (q : Query) (size : Int) (octets : List UInt8) : Except Failure (List Value) := do
  let values ← (Journal.values size octets).mapError .unreadable
  q.select (q.room - 1) values.reverse

end Query

end Spreadsheet.Log
