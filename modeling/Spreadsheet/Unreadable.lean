/-!
# Texts that hold no value

Why a text in one of the data formats holds no value.
-/

namespace Spreadsheet

/-- Why a text holds no value. -/
inductive Unreadable where
  /-- The text is not of the format. -/
  | malformed
  /-- A decimal numeral with more digits than can be read. -/
  | numeralTooLong (digits : Nat)
  deriving DecidableEq, Repr

end Spreadsheet
