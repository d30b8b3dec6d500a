import Spreadsheet.Proofs.Binary64.Nearest
import Mathlib.Data.Nat.Factorization.Basic

/-! # An integer and a half

A number of the format that is an integer is added to a half, and the sum is rounded down. If the sum
is in the format, this gives the integer back. From 2^52 to 2^53 the sum lies halfway between two
integers of the format, and the even one is taken, which is the next one for an odd integer; beyond
2^53 the half is too small to matter (`halfUp?_integer`).

An integer of any size is first rounded to a number of the format, which is an integer again
(`exists_rounded`). -/

namespace Spreadsheet

namespace Binary64

variable {n k c code : Nat} {q : ℚ} {s : Bool} {x : Binary64} {z w : Int}

/-! ### Integers of the format -/

/-- A code stands for an integer if its units are those of the integer. -/
theorem ratOf_eq_iff : ratOf c = n ↔ units c = n * unit := by
  have hunit : (0 : ℚ) < unit := cast_unit_pos
  rw [ratOf, div_eq_iff hunit.ne']
  exact_mod_cast Iff.rfl

/-- A number of at most 53 binary digits is in the format, times any power of two. -/
theorem exists_units_eq (hn : n ≤ 2 ^ 53) : ∃ code, units code = n * 2 ^ k := by
  induction k generalizing n with
  | zero =>
    have hunits := units_eq (k := 0) hn (.inl rfl)
    exact ⟨_, hunits⟩
  | succ k ih =>
    by_cases h : 2 ^ 52 ≤ n
    · exact ⟨_, units_eq hn (.inr h)⟩
    · obtain ⟨code, hcode⟩ := ih (n := 2 * n) (by omega)
      refine ⟨code, ?_⟩
      rw [hcode]
      ring

/-- The code of an integer from 2^52 to 2^53. -/
def integerCode (n : Nat) : Nat :=
  1074 * 2 ^ 52 + n

theorem ratOf_integerCode (hlow : 2 ^ 52 ≤ n) (hhigh : n ≤ 2 ^ 53) :
    ratOf (integerCode n) = n := by
  -- The exponent stays a variable, or Lean computes the power.
  obtain ⟨k, hk⟩ : ∃ k, k = 1074 := ⟨_, rfl⟩
  have hcode : integerCode n = k * 2 ^ 52 + n := by rw [hk, integerCode]
  rw [ratOf_eq_iff, hcode, units_eq hhigh (.inr hlow), Decimal.unit_eq hk]

/-- From 2^52 on the numbers of the format are integers. -/
theorem exists_integer (hc : integerCode (2 ^ 52) ≤ c) : ∃ n : Nat, units c = n * unit := by
  obtain ⟨k, n, hunits, hcode, hn, -⟩ := exists_units c
  obtain ⟨j, hj⟩ : ∃ j, j = 1074 := ⟨_, rfl⟩
  rw [integerCode, ← hj] at hc
  obtain ⟨i, rfl⟩ : ∃ i, k = i + j := ⟨k - j, by omega⟩
  refine ⟨n * 2 ^ i, ?_⟩
  rw [hunits, Decimal.unit_eq hj, pow_add]
  ring

/-- From 2^53 on they lie apart by two at least. -/
theorem add_two_le_ratOf (hc : integerCode (2 ^ 53) ≤ c) : ratOf c + 2 ≤ ratOf (c + 1) := by
  obtain ⟨k, n, hunits, hcode, hn, hk⟩ := exists_units c
  obtain ⟨j, hj⟩ : ∃ j, j = 1074 := ⟨_, rfl⟩
  rw [integerCode, ← hj] at hc
  obtain ⟨i, rfl⟩ : ∃ i, k = i + (j + 1) := ⟨k - (j + 1), by omega⟩
  have hnext : units (c + 1) = (n + 1) * 2 ^ (i + (j + 1)) := by
    rw [hcode, Nat.add_assoc]
    exact units_eq hn (by omega)
  have hunit : (0 : ℚ) < 2 ^ j := by positivity
  have hgap : (1 : ℚ) ≤ 2 ^ i := one_le_pow₀ (by norm_num)
  rw [ratOf, ratOf, hunits, hnext, Decimal.unit_eq hj, div_add' _ _ _ (by positivity)]
  refine div_le_div_of_nonneg_right ?_ (by positivity)
  push_cast
  rw [pow_add, pow_succ]
  nlinarith

/-! ### The number nearest to a half -/

/-- An integer and a half between 2^52 and 2^53 goes to the even integer. -/
theorem codeNear_tie (hlow : 2 ^ 52 ≤ n) (hhigh : n < 2 ^ 53) :
    codeNear (n + 1 / 2) = integerCode (n + n % 2) := by
  have hfirst := ratOf_integerCode hlow hhigh.le
  have hsecond := ratOf_integerCode (n := n + 1) (by omega) hhigh
  push_cast at hsecond
  rw [codeNear_eq_iff (by positivity)]
  -- The rational is the midpoint of two codes; the even one of them covers it.
  rcases Nat.mod_two_eq_zero_or_one n with heven | hodd
  · have hprev : ratOf (integerCode n - 1) ≤ ratOf (integerCode n) :=
      ratOf_strictMono.monotone (by omega)
    rw [heven, Nat.add_zero]
    refine ⟨?_, fun _ => ?_, fun _ => ?_⟩
    · have hnext : integerCode n + 1 = integerCode (n + 1) := rfl
      rw [hnext, hfirst, hsecond]
      linarith
    · linarith
    · unfold integerCode
      omega
  · have hnext : ratOf (integerCode (n + 1)) ≤ ratOf (integerCode (n + 1) + 1) :=
      ratOf_strictMono.monotone (by omega)
    rw [hodd]
    refine ⟨?_, fun _ => ?_, fun _ => ?_⟩
    · linarith
    · have hprev : integerCode (n + 1) - 1 = integerCode n := rfl
      rw [hprev, hfirst, hsecond]
      linarith
    · unfold integerCode
      omega

/-- What is no farther than a half from a number from 2^53 on goes to this number. -/
theorem codeNear_far (hc : integerCode (2 ^ 53) ≤ c) (habove : 2 * q ≤ 2 * ratOf c + 1)
    (hbelow : 2 * ratOf c ≤ 2 * q + 1) : codeNear q = c := by
  have hfirst : ratOf (integerCode (2 ^ 53)) ≤ ratOf c := ratOf_strictMono.monotone hc
  have hnext := add_two_le_ratOf hc
  have hlast : ratOf (integerCode (2 ^ 53)) = 2 ^ 53 :=
    (ratOf_integerCode (by omega) le_rfl).trans (by norm_num)
  rw [codeNear_eq_iff (by linarith)]
  rcases hc.eq_or_lt with rfl | hlt
  · -- Only below 2^53 itself the gap is one; there the half makes a tie, and 2^53 is even.
    have hcode : integerCode (2 ^ 53) - 1 = integerCode (2 ^ 53 - 1) := by
      unfold integerCode
      omega
    have hprev : ratOf (integerCode (2 ^ 53) - 1) = 2 ^ 53 - 1 := by
      rw [hcode, ratOf_integerCode (by omega) (by omega)]
      norm_num
    refine ⟨by linarith, fun _ => by linarith, fun _ => ?_⟩
    unfold integerCode
    omega
  · have hprev := add_two_le_ratOf (c := c - 1) (by omega)
    rw [Nat.sub_add_cancel (by omega)] at hprev
    refine ⟨by linarith, fun _ => by linarith, ?_⟩
    rintro (htie | ⟨-, htie⟩) <;> linarith

/-! ### Adding a half -/

theorem half_eq : ofRatio false 1 2 = finite false ⟨1022 * 2 ^ 52, by decide⟩ := by
  decide +kernel

theorem signedUnits_false (c : Nat) : signedUnits false c = units c := rfl

theorem two_mul_units_half : 2 * units (1022 * 2 ^ 52) = unit := by
  decide +kernel

/-- The sum of an integer and a half is rounded once. -/
theorem roundsTo_add_half {c : Fin codes} (hz : signedUnits s c = z * unit) :
    RoundsTo (z < 0) ((2 * z + 1).natAbs / 2) ((finite s c).add (ofRatio false 1 2)) := by
  obtain ⟨n, hn⟩ : ∃ n, n = signedUnits s c + signedUnits false (1022 * 2 ^ 52) := ⟨_, rfl⟩
  have hunit : (0 : Int) < unit := cast_unit_pos
  have htwo : 2 * n = (2 * z + 1) * unit := by
    have hhalf : 2 * signedUnits false (1022 * 2 ^ 52) = (unit : Int) := by
      rw [signedUnits_false, ← two_mul_units_half, Nat.cast_mul]
      rfl
    rw [hn, hz, mul_add, hhalf]
    ring
  have hne : n ≠ 0 := by
    rintro rfl
    have hzero : (2 * z + 1) * (unit : Int) = 0 := by rw [← htwo, mul_zero]
    rcases mul_eq_zero.mp hzero with h | h <;> omega
  have hnegative : n < 0 ↔ z < 0 := by
    constructor
    · intro h
      have hneg : (2 * z + 1) * (unit : Int) < 0 := by rw [← htwo]; omega
      have hodd := neg_of_mul_neg_left hneg hunit.le
      omega
    · intro h
      have hneg : (2 * z + 1) * (unit : Int) < 0 := mul_neg_of_neg_of_pos (by omega) hunit
      omega
  have hratio : (n.natAbs : ℚ) / unit = (2 * z + 1).natAbs / 2 := by
    have hunit' : (0 : ℚ) < unit := cast_unit_pos
    have habs : n.natAbs * 2 = (2 * z + 1).natAbs * unit := by
      calc n.natAbs * 2 = (2 * n).natAbs := by rw [Int.natAbs_mul, Nat.mul_comm]; rfl
        _ = (2 * z + 1).natAbs * unit := by rw [htwo, Int.natAbs_mul, Int.natAbs_natCast]
    rw [div_eq_div_iff hunit'.ne' two_ne_zero]
    exact_mod_cast habs
  have hsum : (finite s c).add (ofRatio false 1 2) = ofRatio (n < 0) n.natAbs unit := by
    rw [half_eq]
    show ofUnits (signedUnits s c + signedUnits false (1022 * 2 ^ 52)) (s && false) = _
    rw [← hn, ofUnits, if_neg hne]
  rw [hsum, ← hratio, decide_eq_decide.mpr hnegative]
  exact roundsTo_ofRatio _ _ unit_pos

/-- The floor of what a rational is rounded to. -/
theorem floor?_of_codeNear (h : RoundsTo s q x) (hq : 0 ≤ q) (hlimit : q < limit)
    (hcode : codeNear q = code) (hlow : w * unit ≤ signedUnits s code)
    (hhigh : signedUnits s code < (w + 1) * unit) : x.floor? = some w := by
  have hunit : (0 : Int) < unit := cast_unit_pos
  rcases roundsTo_iff.mp h with ⟨code', hnear, rfl⟩ | ⟨hbeyond, -⟩
  · have hsame : (code' : Nat) = code := by
      rw [← hcode, (codeNear_eq_iff_nearest hq code').mpr hnear]
    rw [← hsame] at hlow hhigh
    rw [floor?, Int.fdiv_eq_ediv_of_nonneg _ hunit.le]
    refine congrArg some (le_antisymm ?_ ?_)
    · exact Int.lt_add_one_iff.mp ((Int.ediv_lt_iff_lt_mul hunit).mpr hhigh)
    · exact (Int.le_ediv_iff_mul_le hunit).mpr hlow
  · exact absurd hlimit (not_lt.mpr hbeyond)

/-- A number of the format is an integer if its magnitude is. -/
theorem signedUnits_eq_iff : signedUnits (z < 0) c = z * unit ↔ ratOf c = z.natAbs := by
  rw [ratOf_eq_iff]
  unfold signedUnits
  by_cases h : z < 0
  · have habs : z = -(z.natAbs : Int) := by omega
    rw [decide_eq_true h, if_pos rfl]
    conv_lhs => rw [habs, neg_mul, neg_inj]
    exact_mod_cast Iff.rfl
  · have habs : z = (z.natAbs : Int) := by omega
    rw [decide_eq_false h, if_neg (by simp)]
    conv_lhs => rw [habs]
    exact_mod_cast Iff.rfl

theorem ratOf_of_signedUnits (h : signedUnits s c = z * unit) : ratOf c = z.natAbs := by
  have habs : units c = (signedUnits s c).natAbs := by
    unfold signedUnits
    split <;> omega
  rw [ratOf_eq_iff, habs, h, Int.natAbs_mul, Int.natAbs_natCast]

theorem two_mul_signedUnits (h : 2 * units c = (2 * z + 1).natAbs * unit) :
    2 * signedUnits (z < 0) c = (2 * z + 1) * unit := by
  have hcast : 2 * (units c : Int) = (2 * z + 1).natAbs * unit := by exact_mod_cast h
  unfold signedUnits
  by_cases hz : z < 0
  · have habs : ((2 * z + 1).natAbs : Int) = -(2 * z + 1) := by omega
    rw [decide_eq_true hz, if_pos rfl, mul_neg, hcast, habs, neg_mul, neg_neg]
  · have habs : ((2 * z + 1).natAbs : Int) = 2 * z + 1 := by omega
    rw [decide_eq_false hz, if_neg (by simp), hcast, habs]

theorem half_lt_limit (hn : n ≤ 2 ^ 55) : (n / 2 : ℚ) < limit := by
  have hlimit : (2 : ℚ) ^ 55 < limit := two_pow_lt_limit (by omega)
  have hcast : (n : ℚ) ≤ 2 ^ 55 := by exact_mod_cast hn
  linarith

/-- Up to 2^52 the sum is in the format. -/
theorem halfUp?_integer_exact {c : Fin codes} (hz : signedUnits s c = z * unit)
    (hlow : -2 ^ 52 ≤ z) (hhigh : z < 2 ^ 52) :
    (finite s c).halfUp? = some z := by
  obtain ⟨j, hj⟩ : ∃ j, j = 1073 := ⟨_, rfl⟩
  obtain ⟨code, hcode⟩ := exists_units_eq (n := (2 * z + 1).natAbs) (k := j) (by omega)
  have hunit : (0 : Int) < unit := cast_unit_pos
  have htwo : 2 * units code = (2 * z + 1).natAbs * unit := by
    rw [hcode, Decimal.unit_eq (k := j + 1) (by omega)]
    ring
  have hcodeNear : codeNear ((2 * z + 1).natAbs / 2) = code := by
    have hrat : ((2 * z + 1).natAbs / 2 : ℚ) = ratOf code := by
      have hunit' : (0 : ℚ) < unit := cast_unit_pos
      rw [ratOf, div_eq_div_iff two_ne_zero hunit'.ne']
      exact_mod_cast htwo.symm.trans (Nat.mul_comm _ _)
    rw [hrat, codeNear_ratOf]
  have hsigned := two_mul_signedUnits htwo
  exact floor?_of_codeNear (roundsTo_add_half hz) (by positivity) (half_lt_limit (by omega))
    hcodeNear (by linarith) (by linarith)

/-- Up to 2^53 the sum lies halfway between two integers. -/
theorem halfUp?_integer_tie {c : Fin codes} (hz : signedUnits s c = z * unit)
    (h : 2 ^ 52 ≤ z ∧ z < 2 ^ 53 ∨ -2 ^ 53 ≤ z ∧ z < -2 ^ 52) :
    (finite s c).halfUp? = some (z + z % 2) := by
  obtain ⟨w, hw⟩ : ∃ w, w = z + z % 2 := ⟨_, rfl⟩
  -- Whatever the sign, the magnitude of the sum is an integer and a half.
  obtain ⟨n, hn, hround, hlow, hhigh⟩ : ∃ n : Nat, (2 * z + 1).natAbs = 2 * n + 1 ∧
      n + n % 2 = w.natAbs ∧ 2 ^ 52 ≤ n ∧ n < 2 ^ 53 := by
    rcases h with h | h
    · exact ⟨z.toNat, by omega, by omega, by omega, by omega⟩
    · exact ⟨(-z - 1).toNat, by omega, by omega, by omega, by omega⟩
  have hunit : (0 : Int) < unit := cast_unit_pos
  have hhalf : ((2 * z + 1).natAbs / 2 : ℚ) = n + 1 / 2 := by
    rw [hn]
    push_cast
    ring
  have hcodeNear : codeNear ((2 * z + 1).natAbs / 2) = integerCode w.natAbs := by
    rw [hhalf, codeNear_tie hlow hhigh, hround]
  have hsigned : signedUnits (z < 0) (integerCode w.natAbs) = w * unit := by
    rw [decide_eq_decide.mpr (show z < 0 ↔ w < 0 by omega)]
    exact signedUnits_eq_iff.mpr (ratOf_integerCode (by omega) (by omega))
  rw [← hw]
  exact floor?_of_codeNear (roundsTo_add_half hz) (by positivity) (half_lt_limit (by omega))
    hcodeNear hsigned.ge (by linarith)

/-- From 2^53 on the half is too small to matter. -/
theorem halfUp?_integer_far {c : Fin codes} (hz : signedUnits s c = z * unit)
    (h : 2 ^ 53 ≤ z ∨ z < -2 ^ 53) :
    (finite s c).halfUp? = some z := by
  have hratOf := ratOf_of_signedUnits hz
  have hunit : (0 : Int) < unit := cast_unit_pos
  have hc : integerCode (2 ^ 53) ≤ c := by
    refine ratOf_strictMono.le_iff_le.mp ?_
    rw [ratOf_integerCode (by omega) le_rfl, hratOf]
    exact_mod_cast (show 2 ^ 53 ≤ z.natAbs by omega)
  have hcodeNear : codeNear ((2 * z + 1).natAbs / 2) = c := by
    have habove : ((2 * z + 1).natAbs : ℚ) ≤ 2 * z.natAbs + 1 := by
      exact_mod_cast (show (2 * z + 1).natAbs ≤ 2 * z.natAbs + 1 by omega)
    have hbelow : (2 * z.natAbs : ℚ) ≤ (2 * z + 1).natAbs + 1 := by
      exact_mod_cast (show 2 * z.natAbs ≤ (2 * z + 1).natAbs + 1 by omega)
    refine codeNear_far hc ?_ ?_ <;> rw [hratOf] <;> linarith
  have hless : ((2 * z + 1).natAbs : ℚ) / 2 < limit :=
    (codeNear_lt_iff (by positivity)).mp (hcodeNear ▸ c.isLt)
  have hsigned : signedUnits (z < 0) c = z * unit := signedUnits_eq_iff.mpr hratOf
  exact floor?_of_codeNear (roundsTo_add_half hz) (by positivity) hless hcodeNear hsigned.ge
    (by linarith)

/-- An odd integer between 2^52 and 2^53, of either sign. -/
def Tied (z : Int) : Prop :=
  z % 2 = 1 ∧ 2 ^ 52 < z.natAbs ∧ z.natAbs < 2 ^ 53

instance (z : Int) : Decidable (Tied z) :=
  inferInstanceAs (Decidable (_ ∧ _))

/-- An integer after adding a half and rounding down. -/
def halfUp (z : Int) : Int :=
  if Tied z then z + 1 else z

/-- **The floor of an integer and a half.** -/
theorem halfUp?_integer {c : Fin codes} (hz : signedUnits s c = z * unit) :
    (finite s c).halfUp? = some (halfUp z) := by
  unfold halfUp
  obtain hexact | htie | hfar : -2 ^ 52 ≤ z ∧ z < 2 ^ 52 ∨
      (2 ^ 52 ≤ z ∧ z < 2 ^ 53 ∨ -2 ^ 53 ≤ z ∧ z < -2 ^ 52) ∨ (2 ^ 53 ≤ z ∨ z < -2 ^ 53) := by omega
  · rw [halfUp?_integer_exact hz hexact.1 hexact.2, if_neg (by unfold Tied; omega)]
  · rw [halfUp?_integer_tie hz htie]
    unfold Tied
    split_ifs <;> exact congrArg some (by omega)
  · rw [halfUp?_integer_far hz hfar, if_neg (by unfold Tied; omega)]

/-! ### Integers that are rounded -/

theorem ratOf_lt_limit_iff : ratOf code < limit ↔ code < codes := by
  rw [← codeNear_lt_iff (ratOf_nonneg code), codeNear_ratOf]

theorem natAbs_lt_limit (h : z.natAbs ≤ 2 ^ 53) : (z.natAbs : ℚ) < limit := by
  have hlimit : (2 : ℚ) ^ 53 < limit := two_pow_lt_limit (by omega)
  have hcast : (z.natAbs : ℚ) ≤ 2 ^ 53 := by exact_mod_cast h
  exact hcast.trans_lt hlimit

/-- The integer is a number of the format. -/
def InFormat (z : Int) : Prop :=
  ∃ code : Fin codes, ratOf code = z.natAbs

theorem InFormat.lt_limit (h : InFormat z) : (z.natAbs : ℚ) < limit := by
  obtain ⟨code, hcode⟩ := h
  rw [← hcode]
  exact ratOf_lt_limit_iff.mpr code.isLt

/-- An integer is in the format if it has 53 binary digits at most, but for zeros at the end, and is
not beyond the limit. -/
theorem inFormat_iff : InFormat z ↔
    (z.natAbs : ℚ) < limit ∧ ∃ m k : Nat, m ≤ 2 ^ 53 ∧ z.natAbs = m * 2 ^ k := by
  obtain ⟨j, hj⟩ : ∃ j, j = 1074 := ⟨_, rfl⟩
  have hunit : unit = 2 ^ j := Decimal.unit_eq hj
  constructor
  · intro h
    obtain ⟨code, hcode⟩ := id h
    obtain ⟨k, n, hunits, -, hn, -⟩ := exists_units code
    have hsame : n * 2 ^ k = z.natAbs * 2 ^ j := by
      rw [← hunits, ← hunit]
      exact ratOf_eq_iff.mp hcode
    rcases le_total j k with hjk | hkj
    · refine ⟨h.lt_limit, n, k - j, hn.le, ?_⟩
      refine Nat.eq_of_mul_eq_mul_right (Nat.two_pow_pos j) ?_
      rw [← hsame, Nat.mul_assoc, ← Nat.pow_add, Nat.sub_add_cancel hjk]
    · have hn' : n = z.natAbs * 2 ^ (j - k) := by
        refine Nat.eq_of_mul_eq_mul_right (Nat.two_pow_pos k) ?_
        rw [hsame, Nat.mul_assoc, ← Nat.pow_add, Nat.sub_add_cancel hkj]
      have hle : z.natAbs ≤ n := by
        rw [hn']
        exact Nat.le_mul_of_pos_right _ (Nat.two_pow_pos _)
      exact ⟨h.lt_limit, z.natAbs, 0, hle.trans hn.le, by rw [Nat.pow_zero, Nat.mul_one]⟩
  · rintro ⟨hless, m, k, hm, hz⟩
    obtain ⟨code, hcode⟩ := exists_units_eq (k := k + j) hm
    have hratOf : ratOf code = z.natAbs := by
      rw [ratOf_eq_iff, hcode, hunit, hz, Nat.pow_add, Nat.mul_assoc]
    exact ⟨⟨code, ratOf_lt_limit_iff.mp (hratOf ▸ hless)⟩, hratOf⟩

theorem inFormat_of_le (h : z.natAbs ≤ 2 ^ 53) : InFormat z :=
  inFormat_iff.mpr ⟨natAbs_lt_limit h, _, 0, h, by rw [Nat.pow_zero, Nat.mul_one]⟩

/-- Without a power of ten the integer is in the format too. -/
theorem inFormat_of_mul_pow {d : Nat} (h : InFormat (z * 10 ^ d)) : InFormat z := by
  rcases eq_or_ne z 0 with rfl | hz
  · exact inFormat_of_le (by simp)
  · obtain ⟨hless, m, k, hm, hmul⟩ := inFormat_iff.mp h
    obtain ⟨i, r, hodd, hr⟩ := Nat.exists_eq_two_pow_mul_odd (Int.natAbs_ne_zero.mpr hz)
    have hsame : r * 5 ^ d * 2 ^ (i + d) = m * 2 ^ k := by
      rw [← hmul, Int.natAbs_mul, Int.natAbs_pow, hr, show (10 : Int).natAbs = 5 * 2 by rfl,
        Nat.mul_pow, Nat.pow_add]
      ring
    -- The odd part of the product divides the digits, so the integer has no more of them.
    have hcoprime : (r * 5 ^ d).Coprime (2 ^ k) :=
      Nat.Coprime.pow_right _ (Nat.Coprime.mul_left hodd.coprime_two_right
        (Nat.Coprime.pow_left _ (by decide)))
    have hdvd : r * 5 ^ d ∣ m := hcoprime.dvd_of_dvd_mul_right ⟨_, hsame.symm⟩
    have hm' : 0 < m := by
      refine Nat.pos_of_ne_zero fun hzero => ?_
      have hleft : 0 < r * 5 ^ d * 2 ^ (i + d) := by
        have := hodd.pos
        positivity
      rw [hsame, hzero, Nat.zero_mul] at hleft
      exact absurd hleft (lt_irrefl 0)
    have hle : r ≤ m := (Nat.le_mul_of_pos_right r (by positivity)).trans (Nat.le_of_dvd hm' hdvd)
    have hfactor : z.natAbs ≤ (z * 10 ^ d).natAbs := by
      rw [Int.natAbs_mul]
      exact Nat.le_mul_of_pos_right _ (Int.natAbs_pos.mpr (by positivity))
    have hless' : (z.natAbs : ℚ) < limit :=
      lt_of_le_of_lt (by exact_mod_cast hfactor) hless
    exact inFormat_iff.mpr ⟨hless', r, i, hle.trans hm, by rw [hr, Nat.mul_comm]⟩

/-- The number nearest to a number of the format is that number. -/
theorem Nearest.ratOf_eq {c : Fin codes} (h : Nearest q c) (hq : ratOf code = q) : ratOf c = q := by
  subst hq
  rw [← (codeNear_eq_iff_nearest (ratOf_nonneg code) c).mpr h, codeNear_ratOf]

/-- **An integer is rounded to an integer** of the same sign, to itself if it is in the format, and
to one that is as great as 2^53 if it is not. -/
theorem exists_rounded {y : Int} {c : Fin codes} (h : Nearest y.natAbs c) :
    ∃ z : Int, signedUnits (y < 0) c = z * unit ∧ (z < 0 ↔ y < 0) ∧ (InFormat y → z = y) ∧
      (¬ InFormat y → 2 ^ 53 ≤ z.natAbs) := by
  by_cases hy : InFormat y
  · obtain ⟨code, hcode⟩ := hy
    exact ⟨y, signedUnits_eq_iff.mpr (h.ratOf_eq hcode), Iff.rfl, fun _ => rfl,
      fun hnot => absurd ⟨code, hcode⟩ hnot⟩
  · have hgreat : 2 ^ 53 < y.natAbs := by
      by_contra hle
      exact hy (inFormat_of_le (by omega))
    have hcode := (codeNear_eq_iff_nearest (by positivity) c).mpr h
    have hc : integerCode (2 ^ 53) ≤ c := by
      rw [← hcode, ← codeNear_ratOf (integerCode _)]
      refine codeNear_mono (ratOf_nonneg _) ?_
      rw [ratOf_integerCode (by omega) le_rfl]
      exact_mod_cast hgreat.le
    have hgreat' : (2 ^ 53 : ℚ) ≤ ratOf c := by
      rw [← Nat.cast_ofNat, ← Nat.cast_pow, ← ratOf_integerCode (by omega) le_rfl]
      exact ratOf_strictMono.monotone hc
    obtain ⟨n, hn⟩ := exists_integer ((Nat.add_le_add_left (by omega) _).trans hc)
    have hratOf : ratOf c = n := ratOf_eq_iff.mpr hn
    have hlow : 2 ^ 53 ≤ n := by exact_mod_cast hratOf ▸ hgreat'
    obtain ⟨z, hz, hsign⟩ : ∃ z : Int, z.natAbs = n ∧ (z < 0 ↔ y < 0) := by
      by_cases hneg : y < 0
      · exact ⟨-n, by omega, by omega⟩
      · exact ⟨n, by omega, by omega⟩
    refine ⟨z, ?_, hsign, fun hin => absurd hin hy, fun _ => by omega⟩
    rw [← decide_eq_decide.mpr hsign]
    exact signedUnits_eq_iff.mpr (by rw [hratOf, hz])

end Binary64

end Spreadsheet
