import Spreadsheet.Json.Token
import Spreadsheet.Numeral
import Spreadsheet.Unreadable

/-!
# Reading JSON

A text is read token by token. What is open at each moment is a list of frames, the innermost first,
and a `State` says which token may come next. A key that a map holds twice keeps its first place and
takes the last value.
-/

namespace Spreadsheet.Json

/-- A list or a map that has been opened and not closed. -/
inductive Frame where
  /-- A list with the items read so far, last first. -/
  | list (items : List Value)
  /-- A map with the entries read so far, last first, and the key whose value is to come. -/
  | map (entries : List (Scalar × Value)) (key : String)

/-- What may come next. -/
inductive State where
  | value (frames : List Frame)
  /-- After an opening bracket: an item or the closing bracket. -/
  | firstItem (frames : List Frame)
  | afterItem (items : List Value) (frames : List Frame)
  /-- After an opening brace: a key or the closing brace. -/
  | firstKey (frames : List Frame)
  | key (entries : List (Scalar × Value)) (frames : List Frame)
  | colon (entries : List (Scalar × Value)) (key : String) (frames : List Frame)
  | afterEntry (entries : List (Scalar × Value)) (frames : List Frame)
  | done (v : Value)

namespace State

/-- After a whole value. -/
def complete (v : Value) : List Frame → State
  | [] => done v
  | .list items :: frames => afterItem (v :: items) frames
  | .map entries k :: frames => afterEntry ((.text k, v) :: entries) frames

/-- After the first token of a value. -/
def begin (frames : List Frame) : Token → Except Unreadable State
  | .openList => .ok (firstItem frames)
  | .openMap => .ok (firstKey frames)
  | .text s => .ok (complete (.text s) frames)
  | .word v => .ok (complete (.scalar v) frames)
  | .decimal x => .ok (complete (.scalar (.float x)) frames)
  | .integer negative digits =>
    match Numeral.read digits with
    | .ok n => .ok (complete (.int (if negative then -n else n)) frames)
    | .error _ => .error (.numeralTooLong digits.length)
  | _ => .error .malformed

/-- After one more token. -/
def step : State → Token → Except Unreadable State
  | value frames, t => begin frames t
  | firstItem frames, .closeList => .ok (complete (.list []) frames)
  | firstItem frames, t => begin (.list [] :: frames) t
  | afterItem items frames, .comma => .ok (value (.list items :: frames))
  | afterItem items frames, .closeList => .ok (complete (.list items.reverse) frames)
  | firstKey frames, .closeMap => .ok (complete (.map []) frames)
  | firstKey frames, .text k => .ok (colon [] k frames)
  | key entries frames, .text k => .ok (colon entries k frames)
  | colon entries k frames, .colon => .ok (value (.map entries k :: frames))
  | afterEntry entries frames, .comma => .ok (key entries frames)
  | afterEntry entries frames, .closeMap =>
    .ok (complete (.map (Value.mapOfList entries.reverse)) frames)
  | _, _ => .error .malformed

/-- The value, if nothing more has to come. -/
def finish : State → Except Unreadable Value
  | done v => .ok v
  | _ => .error .malformed

end State

/-- Reads on from a state; the first `skip` characters belong to a token already read. -/
def readFrom (skip : Nat) (s : State) : List Char → Except Unreadable Value
  | [] => s.finish
  | c :: rest =>
    match skip with
    | skip + 1 => readFrom skip s rest
    | 0 =>
      if isSpace c then readFrom 0 s rest
      else match Token.front? (c :: rest) with
        | none => .error .malformed
        | some (t, more) => do readFrom more (← s.step t) rest

/-- The value that a text in JSON holds. -/
def read (cs : List Char) : Except Unreadable Value :=
  readFrom 0 (.value []) cs

end Spreadsheet.Json
