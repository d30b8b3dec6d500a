import Spreadsheet.Binary64.Basic
import Mathlib.Tactic.Linarith
import Mathlib.Tactic.Ring

/-! # Rounding to binary floating point

The number nearest to a ratio of `y / den` units has the code `nearestCode y den`: the units double
`scale y den` times, so that at most 2^53 of the doubled units are left, and these are rounded.

* `nearestCode_mono`: a greater ratio has no lesser code.
* `nearestCode_of_near`: a ratio that differs from a number of the format by less than its 2^54th
  part has that number's code.

The code depends on the ratio alone (`nearestCode_congr`). -/

namespace Spreadsheet

namespace Decimal

/-! ### Rounding quotients -/

variable {a b n den k : Nat}

theorem roundDiv_eq_of_near (habove : 2 * a < 2 * (n * den) + den)
    (hbelow : 2 * (n * den) < 2 * a + den) : roundDiv a den = n := by
  have hden : 0 < den := by omega
  have hle := two_mul_roundDiv_le a den
  have hge := le_two_mul_roundDiv a hden
  have hlt : roundDiv a den * den < (n + 1) * den := by rw [Nat.add_mul]; omega
  have hgt : n * den < (roundDiv a den + 1) * den := by rw [Nat.add_mul]; omega
  have := Nat.lt_of_mul_lt_mul_right hlt
  have := Nat.lt_of_mul_lt_mul_right hgt
  omega

theorem roundDiv_mono (h : a ≤ b) : roundDiv a den ≤ roundDiv b den := by
  have hdiv : a / den ≤ b / den := Nat.div_le_div_right h
  have ha := Nat.div_add_mod a den
  have hb := Nat.div_add_mod b den
  have htwo := Nat.mod_two_eq_zero_or_one (a / den)
  simp only [roundDiv]
  rcases hdiv.lt_or_eq with hlt | heq
  · split_ifs <;> omega
  · rw [heq] at ha htwo ⊢
    split_ifs <;> omega

theorem roundDiv_mul_right (hk : 0 < k) : roundDiv (a * k) (den * k) = roundDiv a den := by
  have hdiv : a * k / (den * k) = a / den := Nat.mul_div_mul_right a den hk
  have hmod : a * k % (den * k) = a % den * k := Nat.mul_mod_mul_right k a den
  have hassoc : 2 * (a % den * k) = 2 * (a % den) * k := (Nat.mul_assoc 2 _ k).symm
  simp only [roundDiv, hdiv, hmod, hassoc, Nat.mul_lt_mul_right hk]

/-- Multiples of the divisor bound the rounded quotient. -/
theorem roundDiv_le (hden : 0 < den) (h : a ≤ n * den) : roundDiv a den ≤ n :=
  (roundDiv_mono h).trans (roundDiv_mul_self n hden).le

theorem le_roundDiv (hden : 0 < den) (h : n * den ≤ a) : n ≤ roundDiv a den :=
  (roundDiv_mul_self n hden).ge.trans (roundDiv_mono h)

end Decimal

namespace Binary64

variable {y den k code : Nat}

/-! ### The scale -/

/-- The unit doubles `k` times before a number of `y / den` units is rounded: so often that 53 binary
digits are left of it, or fewer if it does not double at all. -/
def AtScale (y den k : Nat) : Prop :=
  y < 2 ^ 53 * (den * 2 ^ k) ∧ (k = 0 ∨ 2 ^ 52 * (den * 2 ^ k) ≤ y)

/-- How often the unit doubles. -/
def scale (y den : Nat) : Nat :=
  (y / den).log2 - 52

theorem atScale_scale (hden : 0 < den) : AtScale y den (scale y den) := by
  constructor
  · have hlog : y / den < 2 ^ (53 + scale y den) := by
      refine Nat.lt_of_lt_of_le Nat.lt_log2_self (Nat.pow_le_pow_right (by omega) ?_)
      unfold scale
      omega
    rw [Nat.div_lt_iff_lt_mul hden, Nat.pow_add] at hlog
    calc y < 2 ^ 53 * 2 ^ scale y den * den := hlog
      _ = 2 ^ 53 * (den * 2 ^ scale y den) := by ring
  · refine or_iff_not_imp_left.mpr fun hscale => ?_
    have hlog : (y / den).log2 = 52 + scale y den := by unfold scale at hscale ⊢; omega
    have hne : y / den ≠ 0 := fun h => by rw [h, Nat.log2_zero] at hlog; omega
    have hle := Nat.log2_self_le hne
    rw [hlog, Nat.le_div_iff_mul_le hden, Nat.pow_add] at hle
    calc 2 ^ 52 * (den * 2 ^ scale y den) = 2 ^ 52 * 2 ^ scale y den * den := by ring
      _ ≤ y := hle

/-- A number that is not lesser has no lesser scale. -/
theorem AtScale.le {z j : Nat} (hy : AtScale y den k) (hz : AtScale z den j) (h : y ≤ z) :
    k ≤ j := by
  rcases hy.2 with rfl | hk
  · exact Nat.zero_le j
  · have hlt : den * (2 ^ 52 * 2 ^ k) < den * (2 ^ 53 * 2 ^ j) :=
      calc den * (2 ^ 52 * 2 ^ k) = 2 ^ 52 * (den * 2 ^ k) := by ring
        _ ≤ y := hk
        _ ≤ z := h
        _ < 2 ^ 53 * (den * 2 ^ j) := hz.1
        _ = den * (2 ^ 53 * 2 ^ j) := by ring
    have hpow := Nat.lt_of_mul_lt_mul_left hlt
    rw [← Nat.pow_add, ← Nat.pow_add, Nat.pow_lt_pow_iff_right (by omega)] at hpow
    omega

theorem AtScale.scale_eq (h : AtScale y den k) : scale y den = k := by
  have hden : 0 < den := Nat.pos_of_ne_zero fun hzero => by simp [hzero, AtScale] at h
  exact Nat.le_antisymm ((atScale_scale hden).le h le_rfl) (h.le (atScale_scale hden) le_rfl)

/-! ### The nearest code -/

/-- The code of the number nearest to `y / den` units. -/
def nearestCode (y den : Nat) : Nat :=
  scale y den * 2 ^ 52 + Decimal.roundDiv y (den * 2 ^ scale y den)

theorem ofRatio_eq (negative : Bool) (num den : Nat) : ofRatio negative num den =
    if h : nearestCode (num * unit) den < codes then finite negative ⟨_, h⟩ else inf negative := by
  unfold ofRatio nearestCode scale
  simp only [Nat.shiftLeft_eq]
  rfl

theorem AtScale.nearestCode_eq (h : AtScale y den k) :
    nearestCode y den = k * 2 ^ 52 + Decimal.roundDiv y (den * 2 ^ k) := by
  rw [nearestCode, h.scale_eq]

theorem nearestCode_le (hden : 0 < den) : nearestCode y den ≤ (scale y den + 2) * 2 ^ 52 := by
  have hround : Decimal.roundDiv y (den * 2 ^ scale y den) ≤ 2 ^ 53 :=
    Decimal.roundDiv_le (Nat.mul_pos hden (Nat.two_pow_pos _)) (atScale_scale hden).1.le
  unfold nearestCode
  omega

theorem le_nearestCode (hden : 0 < den) (hscale : scale y den ≠ 0) :
    (scale y den + 1) * 2 ^ 52 ≤ nearestCode y den := by
  have hround : 2 ^ 52 ≤ Decimal.roundDiv y (den * 2 ^ scale y den) :=
    Decimal.le_roundDiv (Nat.mul_pos hden (Nat.two_pow_pos _))
      ((atScale_scale hden).2.resolve_left hscale)
  unfold nearestCode
  omega

/-- **Rounding is monotone.** -/
theorem nearestCode_mono {z : Nat} (hden : 0 < den) (h : y ≤ z) :
    nearestCode y den ≤ nearestCode z den := by
  rcases ((atScale_scale hden).le (atScale_scale hden) h).lt_or_eq with hlt | heq
  · -- The greater number has twice the unit at least.
    calc nearestCode y den ≤ (scale y den + 2) * 2 ^ 52 := nearestCode_le hden
      _ ≤ (scale z den + 1) * 2 ^ 52 := Nat.mul_le_mul_right _ (by omega)
      _ ≤ nearestCode z den := le_nearestCode hden (by omega)
  · unfold nearestCode
    rw [heq]
    exact Nat.add_le_add_left (Decimal.roundDiv_mono h) _

theorem nearestCode_mul_right (hk : 0 < k) : nearestCode (y * k) (den * k) = nearestCode y den := by
  have hscale : scale (y * k) (den * k) = scale y den := by
    rw [scale, Nat.mul_div_mul_right y den hk, ← scale]
  have hassoc : den * k * 2 ^ scale y den = den * 2 ^ scale y den * k := by ring
  rw [nearestCode, hscale, hassoc, Decimal.roundDiv_mul_right hk, ← nearestCode]

/-- Equal ratios have equal codes. -/
theorem nearestCode_congr {z den' : Nat} (hden : 0 < den) (hden' : 0 < den')
    (h : y * den' = z * den) : nearestCode y den = nearestCode z den' := by
  rw [← nearestCode_mul_right hden', h, Nat.mul_comm den den', nearestCode_mul_right hden]

/-! ### Numbers of the format -/

/-- A number of the format has at most 53 binary digits before its unit doubles, and just so many if
the unit doubles. -/
theorem exists_units (code : Nat) : ∃ k n, units code = n * 2 ^ k ∧ code = k * 2 ^ 52 + n ∧
    n < 2 ^ 53 ∧ (k = 0 ∨ 2 ^ 52 ≤ n) := by
  have hbinade : binade = 2 ^ 52 := by decide
  rw [units, hbinade, Nat.shiftLeft_eq]
  by_cases h : code < 2 ^ 52
  · exact ⟨0, code, by rw [if_pos h, Nat.pow_zero, Nat.mul_one], by omega, by omega, .inl rfl⟩
  · refine ⟨code / 2 ^ 52 - 1, 2 ^ 52 + code % 2 ^ 52, if_neg h, ?_, ?_, .inr ?_⟩ <;> omega

theorem units_pos (h : 0 < code) : 0 < units code := by
  obtain ⟨k, n, hunits, hcode, -, hk⟩ := exists_units code
  rw [hunits]
  refine Nat.mul_pos ?_ (Nat.two_pow_pos k)
  rcases hk with rfl | hn <;> omega

/-- **Near a number of the format** all ratios have its code. -/
theorem nearestCode_of_near (habove : 2 ^ 54 * y < (2 ^ 54 + 1) * (units code * den))
    (hbelow : (2 ^ 54 - 1) * (units code * den) < 2 ^ 54 * y) : nearestCode y den = code := by
  obtain ⟨k, n, hunits, rfl, hn, hk⟩ := exists_units code
  have hstep : units (k * 2 ^ 52 + n) * den = n * (den * 2 ^ k) := by rw [hunits]; ring
  rw [hstep] at habove hbelow
  have hmost : n * (den * 2 ^ k) ≤ (2 ^ 53 - 1) * (den * 2 ^ k) := Nat.mul_le_mul_right _ (by omega)
  by_cases hcase : k = 0 ∨ 2 ^ 52 * (den * 2 ^ k) ≤ y
  · have hscale : AtScale y den k := ⟨by omega, hcase⟩
    rw [hscale.nearestCode_eq, Decimal.roundDiv_eq_of_near (n := n)] <;> omega
  · -- The number is a power of two, and the ratio is so little below it that the unit doubles once
    -- less.
    obtain ⟨hk0, hlow⟩ := not_or.mp hcase
    have hleast : 2 ^ 52 * (den * 2 ^ k) ≤ n * (den * 2 ^ k) :=
      Nat.mul_le_mul_right _ (hk.resolve_left hk0)
    have hpower : n = 2 ^ 52 := by
      by_contra hne
      have hmore : (2 ^ 52 + 1) * (den * 2 ^ k) ≤ n * (den * 2 ^ k) :=
        Nat.mul_le_mul_right _ (by omega)
      omega
    obtain ⟨j, rfl⟩ : ∃ j, k = j + 1 := ⟨k - 1, by omega⟩
    have hdouble : den * 2 ^ (j + 1) = 2 * (den * 2 ^ j) := by ring
    rw [hpower, hdouble] at habove hbelow
    rw [hdouble] at hlow
    have hscale : AtScale y den j := ⟨by omega, .inr (by omega)⟩
    rw [hscale.nearestCode_eq, Decimal.roundDiv_eq_of_near (n := 2 ^ 53)] <;> omega

/-- A number of the format has its own code. -/
theorem nearestCode_units (hden : 0 < den) (code : Nat) :
    nearestCode (units code * den) den = code := by
  rcases Nat.eq_zero_or_pos code with rfl | hcode
  · have hscale : AtScale 0 den 0 := ⟨by omega, .inl rfl⟩
    have hzero : units 0 * den = 0 := by simp [units]
    rw [hzero, hscale.nearestCode_eq]
    simp [Decimal.roundDiv, hden]
  · have hpos : 0 < units code * den := Nat.mul_pos (units_pos hcode) hden
    exact nearestCode_of_near (by omega) (by omega)

end Binary64

end Spreadsheet
