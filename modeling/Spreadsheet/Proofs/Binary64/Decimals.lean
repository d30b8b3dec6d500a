import Spreadsheet.Binary64.Decimal
import Spreadsheet.Proofs.Binary64.Rounding
import Spreadsheet.Proofs.Decimal.Numerals
import Mathlib.Algebra.Order.Field.Power
import Mathlib.Data.Rat.Lemmas
import Mathlib.Tactic.FieldSimp
import Mathlib.Tactic.NormNum
import Mathlib.Tactic.Positivity

/-! # Reading decimals

A decimal in reach of the format is read as the number nearest to a rational, whose code is
`codeNear` (`ofDecimal_eq_iff`). The code is monotone in the rational (`codeNear_mono`), and it is
that of a number of the format for all rationals near it (`codeNear_of_near`). A zero at the end of
the digits counts as a power of ten (`ofDecimal_mul_ten`). -/

namespace Spreadsheet

namespace Binary64

variable {q r : ℚ} {code : Nat}

/-! ### Rounding rationals -/

/-- The code of the number nearest to a non-negative rational. -/
def codeNear (q : ℚ) : Nat :=
  nearestCode (q.num.toNat * unit) q.den

/-- The number that a code stands for. -/
def ratOf (code : Nat) : ℚ :=
  units code / unit

theorem unit_pos : 0 < unit := by decide

theorem cast_unit_pos {R : Type} [Semiring R] [PartialOrder R] [IsOrderedRing R] [Nontrivial R] :
    (0 : R) < unit :=
  Nat.cast_pos.mpr unit_pos

theorem ratOf_pos (h : 0 < code) : 0 < ratOf code := by
  have hunits : (0 : ℚ) < units code := by exact_mod_cast units_pos h
  have hunit : (0 : ℚ) < unit := cast_unit_pos
  exact div_pos hunits hunit

theorem exists_ratio (hq : 0 ≤ q) : ∃ a b : Nat, 0 < b ∧ q = a / b := by
  obtain ⟨a, ha⟩ := Int.eq_ofNat_of_zero_le (Rat.num_nonneg.mpr hq)
  refine ⟨a, q.den, q.den_pos, ?_⟩
  conv_lhs => rw [← Rat.num_div_den q, ha]
  rfl

theorem codeNear_div {a b : Nat} (hb : 0 < b) :
    codeNear (a / b) = nearestCode (a * unit) b := by
  obtain ⟨q, hq⟩ : ∃ q : ℚ, q = a / b := ⟨_, rfl⟩
  rw [← hq]
  have hcross : q.num * b = a * q.den := by
    have hb' : (b : ℚ) ≠ 0 := by exact_mod_cast hb.ne'
    have hden : (q.den : ℚ) ≠ 0 := by exact_mod_cast q.den_pos.ne'
    have hfrac := (Rat.num_div_den q).trans hq
    rw [div_eq_div_iff hden hb'] at hfrac
    exact_mod_cast hfrac
  have hnum : (q.num.toNat : Int) = q.num := by
    refine Int.toNat_of_nonneg (Rat.num_nonneg.mpr ?_)
    rw [hq]
    positivity
  have hnat : q.num.toNat * b = a * q.den := by
    rw [← hnum] at hcross
    exact_mod_cast hcross
  refine nearestCode_congr q.den_pos hb ?_
  calc q.num.toNat * unit * b = q.num.toNat * b * unit := by ring
    _ = a * unit * q.den := by rw [hnat]; ring

theorem codeNear_mono (hq : 0 ≤ q) (h : q ≤ r) : codeNear q ≤ codeNear r := by
  obtain ⟨a, b, hb, rfl⟩ := exists_ratio hq
  obtain ⟨c, d, hd, rfl⟩ := exists_ratio (hq.trans h)
  have hcross : a * d ≤ c * b := by
    rw [div_le_div_iff₀ (by exact_mod_cast hb) (by exact_mod_cast hd)] at h
    exact_mod_cast h
  have hleft : nearestCode (a * unit * d) (b * d) = nearestCode (a * unit) b :=
    nearestCode_mul_right hd
  have hright : nearestCode (c * unit * b) (d * b) = nearestCode (c * unit) d :=
    nearestCode_mul_right hb
  rw [codeNear_div hb, codeNear_div hd, ← hleft, ← hright, Nat.mul_comm d b]
  refine nearestCode_mono (Nat.mul_pos hb hd) ?_
  calc a * unit * d = a * d * unit := by ring
    _ ≤ c * b * unit := Nat.mul_le_mul_right _ hcross
    _ = c * unit * b := by ring

theorem codeNear_ratOf (code : Nat) : codeNear (ratOf code) = code := by
  rw [ratOf, codeNear_div unit_pos, nearestCode_units unit_pos]

theorem codeNear_of_near (hq : 0 ≤ q) (habove : 2 ^ 54 * q < (2 ^ 54 + 1) * ratOf code)
    (hbelow : (2 ^ 54 - 1) * ratOf code < 2 ^ 54 * q) : codeNear q = code := by
  obtain ⟨a, b, hb, rfl⟩ := exists_ratio hq
  have hb' : (0 : ℚ) < b := by exact_mod_cast hb
  have hunit : (0 : ℚ) < unit := cast_unit_pos
  rw [ratOf, ← mul_div_assoc, ← mul_div_assoc] at habove hbelow
  rw [div_lt_div_iff₀ hb' hunit] at habove
  rw [div_lt_div_iff₀ hunit hb'] at hbelow
  rw [codeNear_div hb]
  refine nearestCode_of_near ?_ ?_
  · have hnat : 2 ^ 54 * a * unit < (2 ^ 54 + 1) * units code * b := by exact_mod_cast habove
    calc 2 ^ 54 * (a * unit) = 2 ^ 54 * a * unit := by ring
      _ < (2 ^ 54 + 1) * units code * b := hnat
      _ = (2 ^ 54 + 1) * (units code * b) := by ring
  · have hnat : (2 ^ 54 - 1) * units code * b < 2 ^ 54 * a * unit := by
      have hcast : ((2 ^ 54 - 1 : ℕ) : ℚ) = 2 ^ 54 - 1 := by norm_num
      rw [← hcast] at hbelow
      exact_mod_cast hbelow
    calc (2 ^ 54 - 1) * (units code * b) = (2 ^ 54 - 1) * units code * b := by ring
      _ < 2 ^ 54 * a * unit := hnat
      _ = 2 ^ 54 * (a * unit) := by ring

theorem ofRatio_eq_iff {s : Bool} {a b : Nat} (hb : 0 < b) (code : Fin codes) :
    ofRatio s a b = finite s code ↔ codeNear (a / b) = code := by
  rw [ofRatio_eq, codeNear_div hb]
  constructor
  · intro h
    split at h
    · cases h
      rfl
    · cases h
  · intro h
    rw [dif_pos (h ▸ code.isLt)]
    exact congrArg (finite s) (Fin.ext h)

/-! ### Reading decimals -/

/-- The number that a decimal stands for. -/
def decimal (n : Nat) (e : Int) : ℚ :=
  n * 10 ^ e

/-- Neither so great nor so small that the power of ten is not looked at. -/
def InReach (n : Nat) (e : Int) : Prop :=
  n ≠ 0 ∧ -330 ≤ e + Decimal.digitCount n ∧ e + Decimal.digitCount n ≤ 330

theorem ofDecimalExact_eq (s : Bool) (n : Nat) (e : Int) :
    ofDecimalExact s n e = ofRatio s (n * 10 ^ e.toNat) (10 ^ (-e).toNat) := by
  cases e with
  | ofNat e =>
    have hneg : (-Int.ofNat e).toNat = 0 := by rw [Int.ofNat_eq_natCast]; omega
    rw [hneg, pow_zero]
    rfl
  | negSucc e =>
    have hpos : (Int.negSucc e).toNat = 0 := rfl
    rw [hpos, pow_zero, mul_one]
    rfl

theorem decimal_eq_div (n : Nat) (e : Int) :
    decimal n e = (n * 10 ^ e.toNat : Nat) / (10 ^ (-e).toNat : Nat) := by
  have hexp : e = e.toNat - ((-e).toNat : Int) := by omega
  rw [decimal]
  conv_lhs => rw [hexp, zpow_sub₀ (by norm_num), zpow_natCast, zpow_natCast]
  push_cast
  rw [mul_div_assoc]

theorem ofDecimal_eq_iff {s : Bool} {n : Nat} {e : Int} (h : InReach n e) (code : Fin codes) :
    ofDecimal s n e = finite s code ↔ codeNear (decimal n e) = code := by
  obtain ⟨hn, hlow, hhigh⟩ := h
  have hexact : ofDecimal s n e = ofDecimalExact s n e := by
    rw [ofDecimal, if_neg (by omega), if_neg (by omega)]
  rw [hexact, ofDecimalExact_eq, ofRatio_eq_iff (by positivity), decimal_eq_div]

theorem inReach_of_ofDecimal {s : Bool} {n : Nat} {e : Int} {code : Fin codes} (hcode : code.val ≠ 0)
    (h : ofDecimal s n e = finite s code) : InReach n e := by
  unfold ofDecimal at h
  dsimp only at h
  split_ifs at h with hzero hgreat
  · cases h
    exact absurd rfl hcode
  · exact ⟨by omega, by omega, by omega⟩

/-- Read with either sign, a decimal is the number of the code with that sign. -/
def Reads (n : Nat) (e : Int) (code : Fin codes) : Prop :=
  ∀ s, ofDecimal s n e = finite s code

theorem reads_iff {n : Nat} {e : Int} {code : Fin codes} (h : InReach n e) :
    Reads n e code ↔ codeNear (decimal n e) = code :=
  ⟨fun hreads => (ofDecimal_eq_iff h code).mp (hreads false),
    fun hcode _ => (ofDecimal_eq_iff h code).mpr hcode⟩

theorem reads_of_ofDecimal {n : Nat} {e : Int} {code : Fin codes} (hcode : code.val ≠ 0)
    (h : ofDecimal false n e = finite false code) : Reads n e code :=
  have hreach := inReach_of_ofDecimal hcode h
  (reads_iff hreach).mpr ((ofDecimal_eq_iff hreach code).mp h)

theorem decimal_mul_ten (n : Nat) (e : Int) : decimal (n * 10) e = decimal n (e + 1) := by
  rw [decimal, decimal, zpow_add₀ (by norm_num)]
  push_cast
  ring

/-- A zero at the end counts as a power of ten. -/
theorem ofDecimal_mul_ten (s : Bool) (n : Nat) (e : Int) :
    ofDecimal s (n * 10) e = ofDecimal s n (e + 1) := by
  rcases Nat.eq_zero_or_pos n with rfl | hn
  · simp [ofDecimal]
  · have hcount := Decimal.digitCount_mul_ten hn
    have hexact : ofDecimalExact s (n * 10) e = ofDecimalExact s n (e + 1) := by
      have hratio := decimal_mul_ten n e
      rw [decimal_eq_div, decimal_eq_div] at hratio
      rw [ofDecimalExact_eq, ofDecimalExact_eq, ofRatio_eq, ofRatio_eq]
      have hcode := congrArg codeNear hratio
      rw [codeNear_div (by positivity), codeNear_div (by positivity)] at hcode
      simp only [hcode]
    simp only [ofDecimal, hcount, hexact]
    congr 1
    · simp only [Nat.mul_eq_zero, eq_iff_iff]
      omega
    · congr 1
      simp only [eq_iff_iff]
      omega

theorem ofDecimal_mul_pow (s : Bool) (n k : Nat) (e : Int) :
    ofDecimal s (n * 10 ^ k) e = ofDecimal s n (e + k) := by
  induction k generalizing e with
  | zero => simp
  | succ k ih =>
    rw [pow_succ, ← mul_assoc, ofDecimal_mul_ten, ih]
    congr 1
    push_cast
    ring

end Binary64

end Spreadsheet
