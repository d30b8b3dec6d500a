import Spreadsheet.Text.Hex

/-!
# Times

The text of a moment, to the microsecond, in universal time: `2024-01-02T03:04:05.000006Z`.

Years are counted from the first of March, so that the day that leap years have more comes last. Four
hundred years have 146097 days, and the months from March on have 153 days in each five.
-/

namespace Spreadsheet.Time

/-- A day of the calendar. -/
structure Date where
  year : Nat
  month : Nat
  day : Nat
  deriving DecidableEq, Repr

/-- The days from the first of March of the year 0 to the first of January of 1970. -/
def daysBefore1970 : Nat := 719468

/-- The day that comes the given count of days after the first of January of 1970. -/
def Date.ofDays (days : Nat) : Date :=
  let shifted := days + daysBefore1970
  let inCycle := shifted % 146097
  let yearInCycle := (inCycle - inCycle / 1460 + inCycle / 36524 - inCycle / 146096) / 365
  let inYear := inCycle - (365 * yearInCycle + yearInCycle / 4 - yearInCycle / 100)
  let monthInYear := (5 * inYear + 2) / 153
  let month := if monthInYear < 10 then monthInYear + 3 else monthInYear - 9
  let year := yearInCycle + 400 * (shifted / 146097)
  { year := if month ≤ 2 then year + 1 else year
    month
    day := inYear - (153 * monthInYear + 2) / 5 + 1 }

/-- The decimal numeral of a number, of at least the given width. -/
def padded (width n : Nat) : String :=
  String.ofList (Text.padZeros width (Nat.toDigits 10 n))

/-- The text of a moment given in microseconds from the start of 1970 on. -/
def text (microseconds : Nat) : String :=
  let seconds := microseconds / 1000000
  let date := Date.ofDays (seconds / 86400)
  let ofDay := seconds % 86400
  let day := s!"{padded 4 date.year}-{padded 2 date.month}-{padded 2 date.day}"
  let clock := s!"{padded 2 (ofDay / 3600)}:{padded 2 (ofDay / 60 % 60)}:{padded 2 (ofDay % 60)}"
  s!"{day}T{clock}.{padded 6 (microseconds % 1000000)}Z"

/-- The last day of February of a leap year, and the day after it. -/
example : Date.ofDays 19782 = ⟨2024, 2, 29⟩ ∧ Date.ofDays 19783 = ⟨2024, 3, 1⟩ := by decide

end Spreadsheet.Time
