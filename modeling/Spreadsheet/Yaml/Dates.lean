import Spreadsheet.Decimal.Reading
import Spreadsheet.Yaml.Parser

/-!
# Dates in YAML

A plain scalar may be a date, or a date and a time of the day in a time zone or none. It is taken for
one by its form alone, and is refused if there is no such day, time or time zone.
-/

namespace Spreadsheet.Yaml

/-- The failure of a conversion. -/
def valueError (text : String) : Failure :=
  .raised "ValueError" text

/-! ### The form -/

/-- Takes at least `least` and at most `least + more` digits; gives their number. -/
def takeDigits (least more : Nat) (cs : List Char) : Option (Nat × List Char) :=
  let digits := (cs.take (least + more)).takeWhile Decimal.isAsciiDigit
  if digits.length < least then none
  else some (Text.digitsValue digits, cs.drop digits.length)

/-- Takes a character. -/
def takeChar (c : Char) : List Char → Option (List Char)
  | d :: rest => if d = c then some rest else none
  | [] => none

/-- Is the character a blank between the parts of a time? -/
def isSeparating (c : Char) : Bool :=
  c = ' ' || c = '\t'

/-- Takes what stands between a date and a time: the letter T or blanks. -/
def takeBetween : List Char → Option (List Char)
  | c :: rest =>
    if c = 'T' || c = 't' then some rest
    else if isSeparating c then some (rest.dropWhile isSeparating)
    else none
  | [] => none

/-- A day of some year. -/
structure Day where
  year : Nat
  month : Nat
  day : Nat

/-- A time of the day, with the minutes by which its time zone is off, if it has one. -/
structure Clock where
  hour : Nat
  minute : Nat
  second : Nat
  offset : Option Nat

/-- Takes a date, with two digits for the month and the day or, if `short`, with one or two. -/
def takeDay (short : Bool) (cs : List Char) : Option (Day × List Char) := do
  let (least, more) := if short then (1, 1) else (2, 0)
  let (year, rest) ← takeDigits 4 0 cs
  let (month, rest) ← takeDigits least more (← takeChar '-' rest)
  let (day, rest) ← takeDigits least more (← takeChar '-' rest)
  return ({ year, month, day }, rest)

/-- The minutes by which a time zone is off: none are written, a Z is, or hours and perhaps minutes
after a sign. -/
def offset? (cs : List Char) : Option (Option Nat) :=
  match cs.dropWhile isSeparating with
  | [] => if cs.isEmpty then some none else none
  | ['Z'] => some (some 0)
  | c :: rest => do
    guard (c = '+' || c = '-')
    match ← takeDigits 1 1 rest with
    | (hours, []) => return some (hours * 60)
    | (hours, rest) =>
      match ← takeDigits 2 0 (← takeChar ':' rest) with
      | (minutes, []) => return some (hours * 60 + minutes)
      | _ => none

/-- The time that a text is. -/
def clock? (cs : List Char) : Option Clock := do
  let (hour, rest) ← takeDigits 1 1 cs
  let (minute, rest) ← takeDigits 2 0 (← takeChar ':' rest)
  let (second, rest) ← takeDigits 2 0 (← takeChar ':' rest)
  let rest := match rest with
    | '.' :: rest => rest.dropWhile Decimal.isAsciiDigit
    | rest => rest
  return { hour, minute, second, offset := ← offset? rest }

/-! ### The calendar -/

/-- Has the year a twenty-ninth of February? -/
def isLeap (year : Nat) : Bool :=
  year % 4 = 0 && (year % 100 != 0 || year % 400 = 0)

/-- How many days a month has. -/
def daysIn (year month : Nat) : Nat :=
  if month = 2 then if isLeap year then 29 else 28
  else if month ∈ [4, 6, 9, 11] then 30
  else 31

/-- Why there is no such day. -/
def Day.defect? (d : Day) : Option String :=
  if d.year = 0 then some "year 0 is out of range"
  else if d.month = 0 ∨ 12 < d.month then some "month must be in 1..12"
  else if d.day = 0 ∨ daysIn d.year d.month < d.day then some "day is out of range for month"
  else none

/-- Why there is no such time. -/
def Clock.defect? (c : Clock) : Option String :=
  if 23 < c.hour then some "hour must be in 0..23"
  else if 59 < c.minute then some "minute must be in 0..59"
  else if 59 < c.second then some "second must be in 0..59"
  else none

/-- The start of the message about a time zone that is off by a day or more. -/
def zoneMessage : String :=
  "offset must be a timedelta strictly between -timedelta(hours=24) and timedelta(hours=24)"

/-- Why there is no such time zone. -/
def Clock.zoneDefect? (c : Clock) : Option String :=
  if c.offset.any (24 * 60 ≤ ·) then some zoneMessage else none

/-- The object that a date is, unless there is a defect. -/
def dated (kind : String) (defect : Option String) : Except Failure Atom :=
  defect.elim (.ok (.object kind)) (.error ∘ valueError)

/-- The date, or date and time, that a text has the form of; `none` if it has not. -/
def date? (cs : List Char) : Option (Except Failure Atom) :=
  match takeDay false cs with
  | some (day, []) => some (dated "date" day.defect?)
  | _ => do
    let (day, rest) ← takeDay true cs
    let clock ← clock? (← takeBetween rest)
    return dated "datetime" (clock.zoneDefect? <|> day.defect? <|> clock.defect?)

/-- A leap day is a date; there is no thirteenth month; and a time needs its seconds. -/
example : date? "2024-02-29".toList = some (.ok (.object "date")) ∧
    date? "2024-13-45".toList = some (.error (valueError "month must be in 1..12")) ∧
    date? "2024-1-1 9:30".toList = none := ⟨rfl, rfl, rfl⟩

end Spreadsheet.Yaml
