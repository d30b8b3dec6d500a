/-!
# Hexadecimal digits

Lower-case hexadecimal numerals of a fixed least width, as escapes in texts use them.
-/

namespace Spreadsheet.Text

/-- A numeral padded on the left with zeros to the given width. -/
def padZeros (width : Nat) (digits : List Char) : List Char :=
  List.replicate (width - digits.length) '0' ++ digits

/-- The lower-case hexadecimal numeral of a number, of at least the given width. -/
def hex (width n : Nat) : List Char :=
  padZeros width (Nat.toDigits 16 n)

/-- The value of a hexadecimal digit of either case. -/
def hexValue? (c : Char) : Option Nat :=
  if '0' ≤ c ∧ c ≤ '9' then some (c.toNat - 48)
  else if 'a' ≤ c ∧ c ≤ 'f' then some (c.toNat - 87)
  else if 'A' ≤ c ∧ c ≤ 'F' then some (c.toNat - 55)
  else none

theorem length_padZeros (width : Nat) (digits : List Char) :
    (padZeros width digits).length = max width digits.length := by
  simp [padZeros]; omega

end Spreadsheet.Text
