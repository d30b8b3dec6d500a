/-!
# Rounding quotients

Quotients of natural numbers are rounded to the nearest integer, and to the even one of two
nearest; numbers are counted in decimal digits.

Main statements: `two_mul_roundDiv_le` and `le_two_mul_roundDiv` (the result is at most half a unit
away) and `roundDiv_mul_self` (an integral quotient stays).
-/

namespace Spreadsheet.Decimal

/-- The integer nearest to a quotient; a quotient halfway between two integers goes to the even
one. -/
def roundDiv (num den : Nat) : Nat :=
  let quotient := num / den
  let rest := num % den
  if 2 * rest < den then quotient
  else if den < 2 * rest then quotient + 1
  else quotient + quotient % 2

theorem two_mul_roundDiv_le (num den : Nat) : 2 * (roundDiv num den * den) ≤ 2 * num + den := by
  have h := Nat.div_add_mod num den
  rw [Nat.mul_comm] at h
  have := Nat.mod_two_eq_zero_or_one (num / den)
  simp only [roundDiv]
  split
  · omega
  · split
    · rw [Nat.add_mul]; omega
    · rcases this with h2 | h2 <;> rw [h2, Nat.add_mul] <;> omega

theorem le_two_mul_roundDiv (num : Nat) {den : Nat} (h0 : 0 < den) :
    2 * num ≤ 2 * (roundDiv num den * den) + den := by
  have h := Nat.div_add_mod num den
  have hm := Nat.mod_lt num h0
  rw [Nat.mul_comm] at h
  have := Nat.mod_two_eq_zero_or_one (num / den)
  simp only [roundDiv]
  split
  · omega
  · split
    · rw [Nat.add_mul]; omega
    · rcases this with h2 | h2 <;> rw [h2, Nat.add_mul] <;> omega

/-- An integral quotient is its own rounding. -/
theorem roundDiv_mul_self (n : Nat) {den : Nat} (h0 : 0 < den) : roundDiv (n * den) den = n := by
  simp [roundDiv, h0]

/-- The power of ten with the given exponent. -/
def powerOfTen (exponent : Nat) : Nat :=
  Nat.pow 10 exponent

/-- How many decimal digits a number has; zero has none. -/
def digitCount (n : Nat) : Nat :=
  if n = 0 then 0 else (Nat.toDigits 10 n).length

/-- The exponent of the greatest power of ten that is at most the positive number `num / den`. -/
def magnitude (num den : Nat) : Int :=
  if den ≤ num then digitCount (num / den) - 1 else -(digitCount ((den - 1) / num) : Int)

/-- The number `num / den` divided by a power of ten and rounded to an integer. -/
def roundAt (num den : Nat) (exponent : Int) : Nat :=
  match exponent with
  | .ofNat e => roundDiv num (den * powerOfTen e)
  | .negSucc e => roundDiv (num * powerOfTen (e + 1)) den

end Spreadsheet.Decimal
