import Spreadsheet.Number
import Spreadsheet.Proofs.Decimal.Shortest
import Mathlib.Algebra.Order.Group.Unbundled.Abs
import Mathlib.Order.Monotone.Basic

/-! # The nearest number of the format

A code *covers* a rational that lies between the midpoints to the codes next to it; of a midpoint the
even code covers it (`Covers`). Rounding finds the code that covers what is rounded
(`codeNear_eq_iff`), and this is the number of the format that no other is nearer than (`Nearest`,
`codeNear_eq_iff_nearest`). From `limit` on there is none, and rounding leaves the format
(`codeNear_lt_iff`).

Hence ratios (`roundsTo_ofRatio`) and decimals of any exponent (`roundsTo_ofDecimal`) are rounded to
the nearest number, or to infinity. -/

namespace Spreadsheet

namespace Decimal

variable {a den : Nat}

/-- A quotient halfway between two integers goes to the even one. -/
theorem even_roundDiv (hden : 0 < den) (h : 2 * a = 2 * (roundDiv a den * den) + den ∨
    2 * a + den = 2 * (roundDiv a den * den)) : roundDiv a den % 2 = 0 := by
  have hdiv := Nat.div_add_mod a den
  have hrest := Nat.mod_lt a hden
  rw [Nat.mul_comm] at hdiv
  simp only [roundDiv] at h ⊢
  split_ifs at h ⊢
  · omega
  · rw [Nat.add_mul] at h
    omega
  · omega

/-- A quotient is rounded up to an even integer from half a unit below it on. -/
theorem le_roundDiv_iff {k : Nat} (hden : 0 < den) (heven : k % 2 = 0) :
    k ≤ roundDiv a den ↔ 2 * (k * den) ≤ 2 * a + den := by
  constructor
  · intro h
    have := Nat.mul_le_mul_right den h
    have := two_mul_roundDiv_le a den
    omega
  · intro h
    by_contra hlt
    have hstep : (roundDiv a den + 1) * den ≤ k * den := Nat.mul_le_mul_right den (not_le.mp hlt)
    have hnear := le_two_mul_roundDiv a hden
    rw [Nat.add_mul] at hstep
    -- The quotient lies halfway between `k` and the integer before it, which is odd.
    have hodd := even_roundDiv hden (a := a) (.inl (by omega))
    have hnext : (roundDiv a den + 1) * den = k * den := by
      rw [Nat.add_mul]
      omega
    have := Nat.eq_of_mul_eq_mul_right hden hnext
    omega

end Decimal

namespace Binary64

variable {y den k n code : Nat} {q : ℚ}

/-! ### Neighbours -/

theorem units_strictMono : StrictMono units := fun a b hlt => by
  by_contra hle
  have hcodes : nearestCode (units b * 1) 1 ≤ nearestCode (units a * 1) 1 :=
    nearestCode_mono one_pos (Nat.mul_le_mul_right 1 (not_lt.mp hle))
  rw [nearestCode_units one_pos, nearestCode_units one_pos] at hcodes
  omega

theorem units_eq (hn : n ≤ 2 ^ 53) (hk : k = 0 ∨ 2 ^ 52 ≤ n) :
    units (k * 2 ^ 52 + n) = n * 2 ^ k := by
  obtain ⟨k', n', hunits, hcode, hn', hk'⟩ := exists_units (k * 2 ^ 52 + n)
  rw [hunits]
  rcases hn.lt_or_eq with hlt | rfl
  · obtain ⟨rfl, rfl⟩ : k' = k ∧ n' = n := by omega
    rfl
  · obtain ⟨rfl, rfl⟩ : k' = k + 1 ∧ n' = 2 ^ 52 := by omega
    ring

theorem ratOf_strictMono : StrictMono ratOf := fun a b hlt => by
  have hunit : (0 : ℚ) < unit := cast_unit_pos
  exact div_lt_div_of_pos_right (by exact_mod_cast units_strictMono hlt) hunit

theorem ratOf_nonneg (code : Nat) : 0 ≤ ratOf code := by
  unfold ratOf
  positivity

/-- **The rationals that round to a code** lie between the midpoints to its neighbours; a midpoint
rounds to the even one of its two codes. -/
structure Covers (code : Nat) (q : ℚ) : Prop where
  above : 2 * q ≤ ratOf code + ratOf (code + 1)
  below : code ≠ 0 → ratOf (code - 1) + ratOf code ≤ 2 * q
  even : 2 * q = ratOf code + ratOf (code + 1) ∨
    code ≠ 0 ∧ ratOf (code - 1) + ratOf code = 2 * q → code % 2 = 0

/-- What is rounded lies at most halfway to the next code. -/
theorem nearestCode_above (hden : 0 < den) :
    2 * y ≤ (units (nearestCode y den) + units (nearestCode y den + 1)) * den ∧
      (2 * y = (units (nearestCode y den) + units (nearestCode y den + 1)) * den →
        nearestCode y den % 2 = 0) := by
  obtain ⟨hlt, hscale⟩ := atScale_scale (y := y) hden
  have hpos : 0 < den * 2 ^ scale y den := Nat.mul_pos hden (Nat.two_pow_pos _)
  have hle := Decimal.le_two_mul_roundDiv y hpos
  have hmost : Decimal.roundDiv y (den * 2 ^ scale y den) ≤ 2 ^ 53 :=
    Decimal.roundDiv_le hpos hlt.le
  have hleast : scale y den = 0 ∨ 2 ^ 52 ≤ Decimal.roundDiv y (den * 2 ^ scale y den) :=
    hscale.imp_right fun h => Decimal.le_roundDiv hpos h
  have heven := Decimal.even_roundDiv (a := y) hpos
  rw [nearestCode]
  generalize scale y den = k at *
  generalize Decimal.roundDiv y (den * 2 ^ k) = n at *
  have hunits := units_eq hmost hleast
  rcases hmost.lt_or_eq with hn | hn
  · have hnext : units (k * 2 ^ 52 + n + 1) = (n + 1) * 2 ^ k := by
      rw [Nat.add_assoc]
      exact units_eq (by omega) (by omega)
    have hsum : (units (k * 2 ^ 52 + n) + units (k * 2 ^ 52 + n + 1)) * den
        = 2 * (n * (den * 2 ^ k)) + den * 2 ^ k := by rw [hunits, hnext]; ring
    rw [hsum]
    refine ⟨hle, fun h => ?_⟩
    have := heven (.inl h)
    omega
  · have hnext : n * 2 ^ k ≤ units (k * 2 ^ 52 + n + 1) := by
      rw [← hunits]
      exact units_strictMono.monotone (Nat.le_succ _)
    have hsum : 2 * (n * (den * 2 ^ k))
        ≤ (units (k * 2 ^ 52 + n) + units (k * 2 ^ 52 + n + 1)) * den := by
      rw [hunits]
      calc 2 * (n * (den * 2 ^ k)) = (n * 2 ^ k + n * 2 ^ k) * den := by ring
        _ ≤ _ := Nat.mul_le_mul_right _ (by omega)
    rw [← hn] at hlt
    omega

/-- What is rounded lies at least halfway from the code before. -/
theorem nearestCode_below (hden : 0 < den) (hcode : nearestCode y den ≠ 0) :
    (units (nearestCode y den - 1) + units (nearestCode y den)) * den ≤ 2 * y ∧
      ((units (nearestCode y den - 1) + units (nearestCode y den)) * den = 2 * y →
        nearestCode y den % 2 = 0) := by
  obtain ⟨hlt, hscale⟩ := atScale_scale (y := y) hden
  have hpos : 0 < den * 2 ^ scale y den := Nat.mul_pos hden (Nat.two_pow_pos _)
  have hge := Decimal.two_mul_roundDiv_le y (den * 2 ^ scale y den)
  have hmost : Decimal.roundDiv y (den * 2 ^ scale y den) ≤ 2 ^ 53 :=
    Decimal.roundDiv_le hpos hlt.le
  have hleast : scale y den = 0 ∨ 2 ^ 52 ≤ Decimal.roundDiv y (den * 2 ^ scale y den) :=
    hscale.imp_right fun h => Decimal.le_roundDiv hpos h
  have heven := Decimal.even_roundDiv (a := y) hpos
  rw [nearestCode] at hcode ⊢
  generalize scale y den = k at *
  generalize Decimal.roundDiv y (den * 2 ^ k) = n at *
  have hunits := units_eq hmost hleast
  by_cases hn : k = 0 ∨ 2 ^ 52 < n
  · obtain ⟨m, rfl⟩ : ∃ m, n = m + 1 := ⟨n - 1, by omega⟩
    have hlast : units (k * 2 ^ 52 + (m + 1) - 1) = m * 2 ^ k := by
      rw [show k * 2 ^ 52 + (m + 1) - 1 = k * 2 ^ 52 + m by omega]
      exact units_eq (by omega) (by omega)
    have hsum : (units (k * 2 ^ 52 + (m + 1) - 1) + units (k * 2 ^ 52 + (m + 1))) * den
        + den * 2 ^ k = 2 * ((m + 1) * (den * 2 ^ k)) := by rw [hunits, hlast]; ring
    refine ⟨by omega, fun h => ?_⟩
    have := heven (.inr (by omega))
    omega
  · -- The code before has the lesser scale, so it is nearer than the unit.
    obtain ⟨j, rfl⟩ : ∃ j, k = j + 1 := ⟨k - 1, by omega⟩
    have hn : n = 2 ^ 52 := by omega
    have hlast : units ((j + 1) * 2 ^ 52 + n - 1) = (2 * n - 1) * 2 ^ j := by
      rw [show (j + 1) * 2 ^ 52 + n - 1 = j * 2 ^ 52 + (2 * n - 1) by omega]
      exact units_eq (by omega) (by omega)
    have hleast' := hscale.resolve_left (by omega)
    have hunit : 0 < den * 2 ^ j := Nat.mul_pos hden (Nat.two_pow_pos j)
    have hsum : (units ((j + 1) * 2 ^ 52 + n - 1) + units ((j + 1) * 2 ^ 52 + n)) * den
        + den * 2 ^ j = 2 * (n * (den * 2 ^ (j + 1))) := by
      obtain ⟨m, hm⟩ : ∃ m, 2 * n = m + 1 := ⟨2 * n - 1, by omega⟩
      rw [hunits, hlast, hm, Nat.add_sub_cancel]
      calc (m * 2 ^ j + n * 2 ^ (j + 1)) * den + den * 2 ^ j
          = (m + 1) * (den * 2 ^ j) + n * (den * 2 ^ (j + 1)) := by ring
        _ = _ := by rw [← hm]; ring
    rw [← hn] at hleast'
    omega

theorem ratOf_add (c d : Nat) : ratOf c + ratOf d = (units c + units d : Nat) / unit := by
  rw [ratOf, ratOf, ← add_div]
  push_cast
  rfl

theorem le_midpoint_iff {a b n : Nat} (hb : 0 < b) :
    2 * (a / b : ℚ) ≤ n / unit ↔ 2 * (a * unit) ≤ n * b := by
  have hb' : (0 : ℚ) < b := by exact_mod_cast hb
  have hunit : (0 : ℚ) < unit := cast_unit_pos
  rw [← mul_div_assoc, div_le_div_iff₀ hb' hunit, ← mul_assoc]
  norm_cast

theorem midpoint_le_iff {a b n : Nat} (hb : 0 < b) :
    (n / unit : ℚ) ≤ 2 * (a / b) ↔ n * b ≤ 2 * (a * unit) := by
  have hb' : (0 : ℚ) < b := by exact_mod_cast hb
  have hunit : (0 : ℚ) < unit := cast_unit_pos
  rw [← mul_div_assoc, div_le_div_iff₀ hunit hb', ← mul_assoc]
  norm_cast

/-- **Rounding finds a code that covers what is rounded.** -/
theorem covers_codeNear (hq : 0 ≤ q) : Covers (codeNear q) q := by
  obtain ⟨a, b, hb, rfl⟩ := exists_ratio hq
  rw [codeNear_div hb]
  obtain ⟨habove, htie⟩ := nearestCode_above (y := a * unit) hb
  refine ⟨?_, fun hcode => ?_, ?_⟩
  · rw [ratOf_add, le_midpoint_iff hb]
    exact habove
  · rw [ratOf_add, midpoint_le_iff hb]
    exact (nearestCode_below hb hcode).1
  · rintro (h | ⟨hcode, h⟩)
    · rw [ratOf_add] at h
      exact htie (habove.antisymm ((midpoint_le_iff hb).mp h.ge))
    · rw [ratOf_add] at h
      obtain ⟨hbelow, htie'⟩ := nearestCode_below hb hcode
      exact htie' (hbelow.antisymm ((le_midpoint_iff hb).mp h.ge))

theorem Covers.le {c d : Nat} (hc : Covers c q) (hd : Covers d q) : c ≤ d := by
  by_contra hlt
  have hbelow := hc.below (by omega)
  have habove := hd.above
  have hnext : ratOf d ≤ ratOf (c - 1) := ratOf_strictMono.monotone (by omega)
  have hmid : ratOf (d + 1) ≤ ratOf c := ratOf_strictMono.monotone (by omega)
  -- Both midpoints are the rational, so the codes are neighbours, and both of them even.
  have hodd := hc.even (.inr ⟨by omega, by linarith⟩)
  have heven := hd.even (.inl (by linarith))
  have hsame : d + 1 = c := ratOf_strictMono.injective (by linarith)
  omega

/-- **A rational rounds to the code that covers it**, and to no other. -/
theorem codeNear_eq_iff (hq : 0 ≤ q) : codeNear q = code ↔ Covers code q :=
  ⟨fun h => h ▸ covers_codeNear hq,
    fun h => ((covers_codeNear hq).le h).antisymm (h.le (covers_codeNear hq))⟩

/-! ### The numbers that are finite -/

/-- Where numbers become too great: halfway from the greatest number of the format to the power of
two after it. -/
def limit : ℚ :=
  2 ^ 1024 - 2 ^ 970

theorem two_mul_limit : ratOf (codes - 1) + ratOf codes = 2 * limit := by
  obtain ⟨k, hk⟩ : ∃ k, k = 970 := ⟨_, rfl⟩
  have hlast : units (codes - 1) = (2 ^ 53 - 1) * 2 ^ (k + 104 + (k + 1)) := by
    rw [show codes - 1 = (k + 104 + (k + 1)) * 2 ^ 52 + (2 ^ 53 - 1) by rw [hk]; decide]
    exact units_eq (by omega) (.inr (by omega))
  have hnext : units codes = 2 ^ 53 * 2 ^ (k + 104 + (k + 1)) := by
    rw [show codes = (k + 104 + (k + 1)) * 2 ^ 52 + 2 ^ 53 by rw [hk]; decide]
    exact units_eq (by omega) (.inr (by omega))
  have hunit : unit = 2 ^ (k + 104) := Decimal.unit_eq (by omega)
  have hlimit : limit = 2 ^ (k + 54) - 2 ^ k := by rw [limit, hk]
  rw [ratOf_add, hlast, hnext, hunit, hlimit, pow_add 2 (k + 104), div_eq_iff (by positivity)]
  push_cast
  ring

theorem two_pow_lt_limit {k : Nat} (hk : k ≤ 1023) : (2 : ℚ) ^ k < limit := by
  obtain ⟨n, hn⟩ : ∃ n, n = 970 := ⟨_, rfl⟩
  have hpow : (0 : ℚ) < 2 ^ n := by positivity
  calc (2 : ℚ) ^ k ≤ 2 ^ (n + 53) := pow_le_pow_right₀ (by norm_num) (by omega)
    _ = 2 ^ 53 * 2 ^ n := by rw [pow_add, mul_comm]
    _ < (2 ^ 54 - 1) * 2 ^ n := by linarith
    _ = 2 ^ (n + 54) - 2 ^ n := by rw [pow_add]; ring
    _ = limit := by rw [limit, hn]

theorem limit_le_two_pow {k : Nat} (hk : k = 1024) : limit ≤ 2 ^ k := by
  rw [limit, ← hk]
  exact sub_le_self _ (by positivity)

/-- **Rounding stays in the format** below the limit. -/
theorem codeNear_lt_iff (hq : 0 ≤ q) : codeNear q < codes ↔ q < limit := by
  have hcovers := covers_codeNear hq
  have hlimit := two_mul_limit
  constructor
  · intro hlt
    have hnear : ratOf (codeNear q) ≤ ratOf (codes - 1) := ratOf_strictMono.monotone (by omega)
    have hnext : ratOf (codeNear q + 1) ≤ ratOf codes := ratOf_strictMono.monotone (by omega)
    have habove := hcovers.above
    by_contra hge
    have hlast : codeNear q + 1 = codes := ratOf_strictMono.injective (by linarith)
    have heven := hcovers.even (.inl (by linarith))
    unfold codes at hlast
    omega
  · intro hlt
    by_contra hge
    have hcodes : 0 < codes := by decide
    have hnear : ratOf codes ≤ ratOf (codeNear q) := ratOf_strictMono.monotone (by omega)
    have hprev : ratOf (codes - 1) ≤ ratOf (codeNear q - 1) :=
      ratOf_strictMono.monotone (by omega)
    have hbelow := hcovers.below (by omega)
    linarith

/-- **The number of the format nearest to a rational**, by its code: no other is nearer, and of two
nearest it is the even one. Beyond the limit there is none. -/
structure Nearest (q : ℚ) (code : Fin codes) : Prop where
  lt_limit : q < limit
  closest : ∀ other : Fin codes, |ratOf code - q| ≤ |ratOf other - q|
  even : ∀ other : Fin codes, other ≠ code → |ratOf other - q| = |ratOf code - q| →
    code.val % 2 = 0

/-- Of two numbers the lesser is nearer up to their midpoint. -/
theorem nearer_iff {a b : ℚ} (h : a < b) :
    (|a - q| ≤ |b - q| ↔ 2 * q ≤ a + b) ∧ (|b - q| ≤ |a - q| ↔ a + b ≤ 2 * q) := by
  rcases abs_cases (a - q) with ⟨ha, ha'⟩ | ⟨ha, ha'⟩ <;>
    rcases abs_cases (b - q) with ⟨hb, hb'⟩ | ⟨hb, hb'⟩ <;> rw [ha, hb] <;>
      constructor <;> constructor <;> intro <;> linarith

/-- A code that covers a rational is at least as near as any other; of two as near it is the even
one. -/
theorem Covers.nearer {other : Nat} (h : Covers code q) (hne : other ≠ code) :
    |ratOf code - q| ≤ |ratOf other - q| ∧
      (|ratOf other - q| = |ratOf code - q| → code % 2 = 0) := by
  have habove := h.above
  rcases Nat.lt_or_gt_of_ne hne with hlt | hgt
  · have hbelow := h.below (by omega)
    have hother : ratOf other ≤ ratOf (code - 1) := ratOf_strictMono.monotone (by omega)
    obtain ⟨hless, hmore⟩ := nearer_iff (q := q) (ratOf_strictMono hlt)
    refine ⟨hmore.mpr (by linarith), fun htie => h.even (.inr ⟨by omega, ?_⟩)⟩
    have := hless.mp htie.le
    linarith
  · have hother : ratOf (code + 1) ≤ ratOf other := ratOf_strictMono.monotone (by omega)
    obtain ⟨hless, hmore⟩ := nearer_iff (q := q) (ratOf_strictMono hgt)
    refine ⟨hless.mpr (by linarith), fun htie => h.even (.inl ?_)⟩
    have := hmore.mp htie.le
    linarith

/-- The nearest number covers what it is nearest to. -/
theorem Nearest.covers {code : Fin codes} (h : Nearest q code) : Covers code q := by
  have hstep : ratOf code < ratOf (code + 1) := ratOf_strictMono (Nat.lt_succ_self _)
  have hlast : ¬ (code : Nat) + 1 < codes → 2 * q < ratOf code + ratOf (code + 1) := fun hcode => by
    have hlimit := two_mul_limit
    rw [show codes = code + 1 by omega, Nat.add_sub_cancel] at hlimit
    linarith [h.lt_limit]
  refine ⟨?_, fun hcode => ?_, ?_⟩
  · by_cases hcode : (code : Nat) + 1 < codes
    · exact (nearer_iff hstep).1.mp (h.closest ⟨code + 1, hcode⟩)
    · exact (hlast hcode).le
  · have hprev : ratOf (code - 1) < ratOf code := ratOf_strictMono (by omega)
    exact (nearer_iff hprev).2.mp (h.closest ⟨code - 1, by omega⟩)
  · rintro (htie | ⟨hcode, htie⟩)
    · by_cases hcode : (code : Nat) + 1 < codes
      · refine h.even ⟨code + 1, hcode⟩ (fun heq => ?_) ?_
        · have : (code : Nat) + 1 = code := congrArg Fin.val heq
          omega
        · exact ((nearer_iff hstep).2.mpr htie.ge).antisymm ((nearer_iff hstep).1.mpr htie.le)
      · exact absurd htie (hlast hcode).ne
    · have hprev : ratOf (code - 1) < ratOf code := ratOf_strictMono (by omega)
      refine h.even ⟨code - 1, by omega⟩ (fun heq => ?_) ?_
      · have : (code : Nat) - 1 = code := congrArg Fin.val heq
        omega
      · exact ((nearer_iff hprev).1.mpr htie.ge).antisymm ((nearer_iff hprev).2.mpr htie.le)

/-- **Rounding finds the nearest number.** -/
theorem codeNear_eq_iff_nearest (hq : 0 ≤ q) (code : Fin codes) :
    codeNear q = code ↔ Nearest q code := by
  refine ⟨fun h => ?_, fun h => (codeNear_eq_iff hq).mpr h.covers⟩
  have hcovers := (codeNear_eq_iff hq).mp h
  refine ⟨(codeNear_lt_iff hq).mp (h ▸ code.isLt), fun other => ?_, fun other hne htie => ?_⟩
  · by_cases hne : (other : Nat) = code
    · rw [hne]
    · exact (hcovers.nearer hne).1
  · exact (hcovers.nearer fun heq => hne (Fin.ext heq)).2 htie

theorem nearest_ratOf (code : Fin codes) : Nearest (ratOf code) code :=
  (codeNear_eq_iff_nearest (ratOf_nonneg code) code).mp (codeNear_ratOf code)

theorem Nearest.unique {c d : Fin codes} (hc : Nearest q c) (hd : Nearest q d) : c = d :=
  Fin.ext ((hc.covers.le hd.covers).antisymm (hd.covers.le hc.covers))

/-! ### Results -/

/-- **What a magnitude with a sign is rounded to**: the nearest number of the format with that sign,
or the infinity. -/
inductive RoundsTo (s : Bool) (q : ℚ) : Binary64 → Prop
  | finite {code : Fin codes} (h : Nearest q code) : RoundsTo s q (.finite s code)
  | inf (h : limit ≤ q) : RoundsTo s q (.inf s)

theorem roundsTo_iff {s : Bool} {x : Binary64} : RoundsTo s q x ↔
    (∃ code, Nearest q code ∧ x = finite s code) ∨ limit ≤ q ∧ x = inf s := by
  constructor
  · rintro (h | h)
    · exact .inl ⟨_, h, rfl⟩
    · exact .inr ⟨h, rfl⟩
  · rintro (⟨code, h, rfl⟩ | ⟨h, rfl⟩)
    · exact .finite h
    · exact .inf h

theorem roundsTo_of_codeNear {s : Bool} (hq : 0 ≤ q) : RoundsTo s q
    (if h : codeNear q < codes then finite s ⟨codeNear q, h⟩ else inf s) := by
  split
  · exact .finite ((codeNear_eq_iff_nearest hq _).mp rfl)
  · next h => exact .inf (not_lt.mp fun hlt => h ((codeNear_lt_iff hq).mpr hlt))

theorem roundsTo_ofRatio (s : Bool) (a : Nat) {b : Nat} (hb : 0 < b) :
    RoundsTo s (a / b) (ofRatio s a b) := by
  have h := roundsTo_of_codeNear (s := s) (q := a / b) (by positivity)
  simp only [codeNear_div hb] at h
  rwa [ofRatio_eq]

theorem nearest_zero : Nearest 0 ⟨0, by decide⟩ := by
  have hzero : ratOf 0 = 0 := by simp [ratOf, units]
  refine (codeNear_eq_iff_nearest le_rfl _).mp ?_
  exact hzero ▸ codeNear_ratOf 0

/-- Half the least positive number rounds to zero. -/
theorem nearest_zero_of_small (hq : 0 ≤ q) (h : 2 * q < ratOf 1) : Nearest q ⟨0, by decide⟩ := by
  have hzero : ratOf 0 = 0 := by simp [ratOf, units]
  refine (codeNear_eq_iff_nearest hq _).mp ((codeNear_eq_iff hq).mpr ⟨?_, ?_, ?_⟩)
  · rw [hzero, zero_add, zero_add]
    exact h.le
  · exact fun hne => absurd rfl hne
  · exact fun _ => rfl

theorem decimal_nonneg (n : Nat) (e : Int) : 0 ≤ decimal n e := by
  unfold decimal
  positivity

/-- Too few digits before the point for a positive number. -/
theorem two_mul_decimal_lt {n : Nat} {e : Int} (hn : 0 < n)
    (h : e + Decimal.digitCount n ≤ -325) : 2 * decimal n e < ratOf 1 := by
  obtain ⟨j, hj⟩ : ∃ j, j = 25 := ⟨_, rfl⟩
  obtain ⟨k, hk⟩ : ∃ k, k = 1074 := ⟨_, rfl⟩
  have hpow : (0 : ℚ) < 10 ^ e := by positivity
  have hunit : (0 : ℚ) < unit := cast_unit_pos
  have hcast : (0 : ℚ) < (10 ^ (13 * j) : Nat) := by positivity
  have hnat : 2 * unit ≤ 10 ^ (13 * j) := by
    rw [Decimal.unit_eq hk, ← Nat.pow_succ']
    exact Decimal.two_pow_le (by omega)
  calc 2 * decimal n e < 2 * ((10 ^ Decimal.digitCount n : Nat) * 10 ^ e) := by
        have hlt : (n : ℚ) < (10 ^ Decimal.digitCount n : Nat) := by
          exact_mod_cast Decimal.lt_pow_digitCount hn
        unfold decimal
        linarith [mul_lt_mul_of_pos_right hlt hpow]
    _ = 2 * 10 ^ (e + Decimal.digitCount n) := by
        rw [Decimal.cast_pow_ten, ← zpow_add₀ (by norm_num), add_comm]
    _ ≤ 2 * 10 ^ (-(13 * j : Nat) : Int) := by
        have := zpow_le_zpow_right₀ (show (1 : ℚ) ≤ 10 by norm_num)
          (show e + Decimal.digitCount n ≤ -(13 * j : Nat) by omega)
        linarith
    _ ≤ ratOf 1 := by
        have hone : ratOf 1 = 1 / unit := by simp [ratOf, units, binade]
        rw [hone, zpow_neg, ← Decimal.cast_pow_ten, ← div_eq_mul_inv, div_le_div_iff₀ hcast hunit,
          one_mul]
        exact_mod_cast hnat

/-- Too many digits before the point for a finite number. -/
theorem limit_le_decimal {n : Nat} {e : Int} (hn : 0 < n)
    (h : 326 ≤ e + Decimal.digitCount n) : limit ≤ decimal n e := by
  obtain ⟨j, hj⟩ : ∃ j, j = 25 := ⟨_, rfl⟩
  obtain ⟨k, hk⟩ : ∃ k, k = 1024 := ⟨_, rfl⟩
  have hpow : (0 : ℚ) < 10 ^ e := by positivity
  have hcount := Decimal.digitCount_pos hn
  calc limit ≤ (2 : ℚ) ^ k := limit_le_two_pow hk
    _ ≤ (10 ^ (13 * j) : Nat) := by exact_mod_cast Decimal.two_pow_le (by omega)
    _ = 10 ^ ((13 * j : Nat) : Int) := Decimal.cast_pow_ten _
    _ ≤ 10 ^ ((Decimal.digitCount n - 1 : Nat) + e : Int) :=
        zpow_le_zpow_right₀ (by norm_num) (by omega)
    _ = (10 ^ (Decimal.digitCount n - 1) : Nat) * 10 ^ e := by
        rw [zpow_add₀ (by norm_num), Decimal.cast_pow_ten]
    _ ≤ decimal n e := by
        have hle : ((10 ^ (Decimal.digitCount n - 1) : Nat) : ℚ) ≤ n := by
          exact_mod_cast Decimal.pow_digitCount_le hn
        exact mul_le_mul_of_nonneg_right hle hpow.le

/-- **A decimal is read as what it is rounded to**, whatever its exponent. -/
theorem roundsTo_ofDecimal (s : Bool) (n : Nat) (e : Int) :
    RoundsTo s (decimal n e) (ofDecimal s n e) := by
  unfold ofDecimal
  dsimp only
  split_ifs with hsmall hgreat
  · rcases Nat.eq_zero_or_pos n with rfl | hn
    · rw [decimal, Nat.cast_zero, zero_mul]
      exact .finite nearest_zero
    · exact .finite (nearest_zero_of_small (decimal_nonneg n e) (two_mul_decimal_lt hn (by omega)))
  · exact .inf (limit_le_decimal (by omega) (by omega))
  · rw [ofDecimalExact_eq, decimal_eq_div]
    exact roundsTo_ofRatio s _ (by positivity)

end Binary64

namespace Number

open Binary64

theorem roundsTo_natAbs (n : Int) {den : Nat} (hden : den = 1) :
    RoundsTo (n < 0) |(n : ℚ)| (ofRatio (n < 0) n.natAbs den) := by
  have habs : ((n.natAbs : Nat) : ℚ) / den = |(n : ℚ)| := by
    rw [hden, Nat.cast_one, div_one, Nat.cast_natAbs, Int.cast_abs]
  rw [← habs]
  exact roundsTo_ofRatio _ _ (by omega)

/-- **An integer becomes the number nearest to it**, unless it lies beyond the limit. -/
theorem ofIntNearest_cases (n : Int) :
    (∃ code, Nearest |(n : ℚ)| code ∧ ofIntNearest n = .ok (.finite (n < 0) code)) ∨
      limit ≤ |(n : ℚ)| ∧ ofIntNearest n = .error .integer := by
  unfold ofIntNearest ofInt?
  rcases roundsTo_iff.mp (roundsTo_natAbs n rfl) with ⟨code, h, hx⟩ | ⟨h, hx⟩
  · refine .inl ⟨code, h, ?_⟩
    rw [hx]
    rfl
  · refine .inr ⟨h, ?_⟩
    rw [hx]
    rfl

end Number

end Spreadsheet
