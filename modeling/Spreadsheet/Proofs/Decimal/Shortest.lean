import Spreadsheet.Decimal.Digits
import Spreadsheet.Proofs.Binary64.Decimals

/-! # The shortest decimal reads back

With seventeen digits a decimal is so near to the number it is rounded from that it reads as that
number (`reads_roundAt`). So the search for the shortest decimal finds one, and what it finds reads
back (`writes_shortest`): also where a neighbour has one digit more than is sought, since then it is
a power of ten (`reads_pow`), and leaving out its last zero changes nothing. -/

namespace Spreadsheet

namespace Decimal

open Binary64

variable {num den count n : Nat} {code : Fin codes} {m : Int}

/-! ### Magnitudes -/

theorem cast_pow_ten (k : Nat) : ((10 ^ k : Nat) : ℚ) = (10 : ℚ) ^ (k : Int) := by
  rw [Nat.cast_pow, zpow_natCast]
  rfl

theorem pow_magnitude_le (hnum : 0 < num) (hden : 0 < den) :
    (10 : ℚ) ^ magnitude num den ≤ num / den := by
  have hden' : (0 : ℚ) < den := by exact_mod_cast hden
  unfold magnitude
  split
  · next hle =>
    have hpos : 0 < num / den := Nat.div_pos hle hden
    have hcount := digitCount_pos hpos
    have hpow := (Nat.le_div_iff_mul_le hden).mp (pow_digitCount_le hpos)
    rw [show (digitCount (num / den) : Int) - 1 = (digitCount (num / den) - 1 : Nat) by omega,
      ← cast_pow_ten, le_div_iff₀ hden']
    exact_mod_cast hpow
  · next hlt =>
    have hpos : 0 < (den - 1) / num := Nat.div_pos (by omega) hnum
    have hpow := (Nat.div_lt_iff_lt_mul hnum).mp (lt_pow_digitCount hpos)
    have hcast : (0 : ℚ) < (10 ^ digitCount ((den - 1) / num) : Nat) := by positivity
    rw [zpow_neg, ← cast_pow_ten, inv_eq_one_div, div_le_div_iff₀ hcast hden', one_mul, mul_comm]
    exact_mod_cast (show den ≤ 10 ^ digitCount ((den - 1) / num) * num by omega)

theorem lt_pow_magnitude (hnum : 0 < num) (hden : 0 < den) :
    (num / den : ℚ) < 10 ^ (magnitude num den + 1) := by
  have hden' : (0 : ℚ) < den := by exact_mod_cast hden
  unfold magnitude
  split
  · next hle =>
    have hpow := (Nat.div_lt_iff_lt_mul hden).mp (lt_pow_digitCount (Nat.div_pos hle hden))
    rw [sub_add_cancel, ← cast_pow_ten, div_lt_iff₀ hden']
    exact_mod_cast hpow
  · next hlt =>
    have hpos : 0 < (den - 1) / num := Nat.div_pos (by omega) hnum
    have hcount := digitCount_pos hpos
    have hpow := (Nat.le_div_iff_mul_le hnum).mp (pow_digitCount_le hpos)
    have hcast : (0 : ℚ) < (10 ^ (digitCount ((den - 1) / num) - 1) : Nat) := by positivity
    rw [show -(digitCount ((den - 1) / num) : Int) + 1 = -(digitCount ((den - 1) / num) - 1 : Nat)
      by omega, zpow_neg, ← cast_pow_ten, inv_eq_one_div, div_lt_div_iff₀ hden' hcast, one_mul,
      mul_comm]
    exact_mod_cast (show 10 ^ (digitCount ((den - 1) / num) - 1) * num < den by omega)

/-! ### Rounded decimals -/

theorem roundDiv_near (a : Nat) {b : Nat} (hb : 0 < b) :
    2 * (roundDiv a b : ℚ) ≤ 2 * (a / b) + 1 ∧ 2 * (a / b : ℚ) ≤ 2 * roundDiv a b + 1 := by
  have hb' : (0 : ℚ) < b := by exact_mod_cast hb
  have hle : (2 * (roundDiv a b * b) : ℚ) ≤ 2 * a + b := by
    exact_mod_cast two_mul_roundDiv_le a b
  have hge : (2 * a : ℚ) ≤ 2 * (roundDiv a b * b) + b := by
    exact_mod_cast le_two_mul_roundDiv a hb
  have ha : (a : ℚ) = a / b * b := (div_mul_cancel₀ _ hb'.ne').symm
  rw [ha] at hle hge
  constructor
  · refine le_of_mul_le_mul_right ?_ hb'
    linarith
  · refine le_of_mul_le_mul_right ?_ hb'
    linarith

theorem roundAt_eq (num : Nat) (hden : 0 < den) (e : Int) : ∃ a b : Nat, 0 < b ∧
    roundAt num den e = roundDiv a b ∧ (a / b : ℚ) = num / den / 10 ^ e := by
  cases e with
  | ofNat k =>
    refine ⟨num, den * 10 ^ k, by positivity, rfl, ?_⟩
    rw [Int.ofNat_eq_natCast, ← cast_pow_ten, div_div]
    push_cast
    rfl
  | negSucc k =>
    refine ⟨num * 10 ^ (k + 1), den, hden, rfl, ?_⟩
    rw [Int.negSucc_eq, show (k : Int) + 1 = (k + 1 : Nat) by omega, zpow_neg, ← cast_pow_ten,
      div_inv_eq_mul]
    push_cast
    ring

/-- A rounded decimal is at most half a unit of its last place away. -/
theorem roundAt_near (num : Nat) (hden : 0 < den) (e : Int) :
    2 * decimal (roundAt num den e) e ≤ 2 * (num / den) + 10 ^ e ∧
      2 * (num / den : ℚ) ≤ 2 * decimal (roundAt num den e) e + 10 ^ e := by
  obtain ⟨a, b, hb, hround, hratio⟩ := roundAt_eq num hden e
  have hpow : (0 : ℚ) < 10 ^ e := by positivity
  have hnum : (num / den : ℚ) = a / b * 10 ^ e := by rw [hratio, div_mul_cancel₀ _ hpow.ne']
  obtain ⟨hle, hge⟩ := roundDiv_near a hb
  rw [hround, hnum, decimal]
  constructor
  · have := mul_le_mul_of_nonneg_right hle hpow.le
    linarith
  · have := mul_le_mul_of_nonneg_right hge hpow.le
    linarith

/-- With its magnitude a number rounds to as many digits as are asked for, or to the next power of
ten. -/
theorem roundAt_bounds (hnum : 0 < num) (hden : 0 < den) (k : Nat) :
    10 ^ k ≤ roundAt num den (magnitude num den - k) ∧
      roundAt num den (magnitude num den - k) ≤ 10 ^ (k + 1) := by
  obtain ⟨e, he⟩ : ∃ e, e = magnitude num den - k := ⟨_, rfl⟩
  have hpow : (0 : ℚ) < 10 ^ e := by positivity
  have hlow := pow_magnitude_le hnum hden
  have hhigh := lt_pow_magnitude hnum hden
  obtain ⟨hle, hge⟩ := roundAt_near num hden e
  have hm : magnitude num den = k + e := by omega
  rw [hm, zpow_add₀ (by norm_num), ← cast_pow_ten] at hlow
  rw [hm, show (k : Int) + e + 1 = (k + 1 : Nat) + e by push_cast; ring, zpow_add₀ (by norm_num),
    ← cast_pow_ten] at hhigh
  rw [← he]
  rw [decimal] at hle hge
  constructor
  · have hscaled : 2 * ((10 ^ k : Nat) : ℚ) * 10 ^ e ≤ (2 * roundAt num den e + 1) * 10 ^ e := by
      linarith
    have hnat := le_of_mul_le_mul_right hscaled hpow
    have : 2 * 10 ^ k ≤ 2 * roundAt num den e + 1 := by exact_mod_cast hnat
    omega
  · have hscaled : 2 * (roundAt num den e : ℚ) * 10 ^ e
        < (2 * (10 ^ (k + 1) : Nat) + 1) * 10 ^ e := by linarith
    have hnat := lt_of_mul_lt_mul_right hscaled hpow.le
    have : 2 * roundAt num den e < 2 * 10 ^ (k + 1) + 1 := by exact_mod_cast hnat
    omega

/-! ### Seventeen digits -/

theorem two_pow_le {j k : Nat} (h : k ≤ 43 * j) : 2 ^ k ≤ 10 ^ (13 * j) := by
  calc 2 ^ k ≤ 2 ^ (43 * j) := Nat.pow_le_pow_right (by omega) h
    _ = (2 ^ 43) ^ j := Nat.pow_mul ..
    _ ≤ (10 ^ 13) ^ j := Nat.pow_le_pow_left (by norm_num) j
    _ = 10 ^ (13 * j) := (Nat.pow_mul ..).symm

theorem unit_eq {k : Nat} (h : k = 1074) : unit = 2 ^ k := by
  rw [unit, ← h]
  exact Nat.one_shiftLeft k

/-- Numbers of the format lie between 10^-325 and 10^325. -/
theorem unit_le {j : Nat} (h : j = 25) : unit ≤ 10 ^ (13 * j) := by
  obtain ⟨i, hi⟩ : ∃ i, i = 1074 := ⟨_, rfl⟩
  rw [unit_eq hi]
  exact two_pow_le (by omega)

theorem units_lt (code : Fin codes) {j : Nat} (h : j = 25) : units code < 10 ^ (13 * j) * unit := by
  obtain ⟨k, n, hunits, hcode, hn, hk⟩ := exists_units code
  have hlt : (code : Nat) < 2047 * 2 ^ 52 := Nat.lt_of_lt_of_eq code.isLt (by decide)
  obtain ⟨i, hi⟩ : ∃ i, i = 1074 := ⟨_, rfl⟩
  obtain ⟨c, hc⟩ : ∃ c, c = 971 := ⟨_, rfl⟩
  rw [hunits, unit_eq hi]
  calc n * 2 ^ k < 2 ^ 53 * 2 ^ k := Nat.mul_lt_mul_of_pos_right hn (Nat.two_pow_pos k)
    _ ≤ 2 ^ 53 * 2 ^ (c + i) := Nat.mul_le_mul_left _ (Nat.pow_le_pow_right (by omega) (by omega))
    _ = 2 ^ (53 + c) * 2 ^ i := by rw [Nat.pow_add 2 c, Nat.pow_add 2 53, Nat.mul_assoc]
    _ ≤ 10 ^ (13 * j) * 2 ^ i := Nat.mul_le_mul_right _ (two_pow_le (by omega))

theorem magnitude_units (hcode : code.val ≠ 0) :
    -326 ≤ magnitude (units code) unit ∧ magnitude (units code) unit ≤ 325 := by
  obtain ⟨j, hj⟩ : ∃ j, j = 25 := ⟨_, rfl⟩
  have hpos : 0 < units code := units_pos (by omega)
  have hunit : (0 : ℚ) < unit := cast_unit_pos
  have hleast : (10 : ℚ) ^ (-(13 * j : Nat) : Int) ≤ units code / unit := by
    have hnat : unit ≤ units code * 10 ^ (13 * j) :=
      (unit_le hj).trans (Nat.le_mul_of_pos_left _ hpos)
    have hcast : (0 : ℚ) < (10 ^ (13 * j) : Nat) := Nat.cast_pos.mpr (Nat.pow_pos (by omega))
    rw [zpow_neg, ← cast_pow_ten, inv_eq_one_div, div_le_div_iff₀ hcast hunit, one_mul]
    exact_mod_cast hnat
  have hgreatest : (units code / unit : ℚ) < 10 ^ ((13 * j : Nat) : Int) := by
    rw [← cast_pow_ten, div_lt_iff₀ hunit]
    exact_mod_cast units_lt code hj
  have hten : (1 : ℚ) < 10 := by norm_num
  have hlow := (zpow_lt_zpow_iff_right₀ hten).mp
    (hleast.trans_lt (lt_pow_magnitude hpos unit_pos))
  have hhigh := (zpow_lt_zpow_iff_right₀ hten).mp
    ((pow_magnitude_le hpos unit_pos).trans_lt hgreatest)
  omega

theorem inReach_of_count {k : Nat} (hcode : code.val ≠ 0) (hlow : 10 ^ k ≤ n)
    (hhigh : n < 10 ^ (k + 2)) : InReach n (magnitude (units code) unit - k) := by
  have hpos : 0 < n := Nat.lt_of_lt_of_le (Nat.pow_pos (by omega)) hlow
  have hmore := (lt_digitCount_iff hpos).mpr hlow
  have hless := (digitCount_le_iff hpos).mpr hhigh
  have hm := magnitude_units hcode
  exact ⟨by omega, by omega, by omega⟩

/-- **Seventeen digits read back.** -/
theorem reads_roundAt (hcode : code.val ≠ 0) :
    Reads (roundAt (units code) unit (magnitude (units code) unit - 16))
      (magnitude (units code) unit - 16) code := by
  have hpos : 0 < units code := units_pos (by omega)
  obtain ⟨hlow, hhigh⟩ := roundAt_bounds hpos unit_pos 16
  have hreach := inReach_of_count hcode hlow (hhigh.trans_lt (by norm_num))
  refine (reads_iff hreach).mpr ?_
  obtain ⟨e, he⟩ : ∃ e, e = magnitude (units code) unit - 16 := ⟨_, rfl⟩
  have hm := pow_magnitude_le hpos unit_pos
  have hstep : (10 : ℚ) ^ magnitude (units code) unit = 10 ^ 16 * 10 ^ e := by
    rw [show magnitude (units code) unit = (16 : Nat) + e by omega, zpow_add₀ (by norm_num),
      zpow_natCast]
  obtain ⟨hle, hge⟩ := roundAt_near (units code) unit_pos e
  rw [hstep] at hm
  show codeNear (decimal (roundAt _ _ (magnitude (units code) unit - (16 : Nat))) _) = _
  rw [Nat.cast_ofNat, ← he]
  rw [← ratOf] at hm hle hge
  have hrat : 0 < ratOf code := ratOf_pos (Nat.pos_of_ne_zero hcode)
  -- Half a unit of the last place is at most the number divided by twice 10^16.
  refine codeNear_of_near ?_ ?_ ?_ <;> linarith

/-! ### The search -/

/-- A decimal that is written with ASCII digits and reads as the number of a code. Only zero is
written with a zero in front. -/
structure Writes (d : Digits) (code : Fin codes) : Prop where
  ascii : AsciiDigits d.digits
  nonempty : d.digits ≠ []
  leading : (∀ c ∈ d.digits.head?, c ≠ '0') ∨ d = ⟨['0'], 0⟩
  reads : Reads (Text.digitsValue d.digits) (d.exponent - (d.digits.length - 1 : Nat)) code

theorem writes_ofRounded {k : Nat} (hpos : 0 < n) (hn : n ≤ 10 ^ (k + 1))
    (h : Reads n (m - k) code) : Writes (.ofRounded (k + 1) n m) code := by
  unfold Digits.ofRounded
  dsimp only
  rcases hn.lt_or_eq with hlt | rfl
  · have hcount := (digitCount_le_iff hpos).mpr hlt
    have hdigits := digitCount_pos hpos
    rw [digitCount_of_pos hpos] at hcount hdigits
    rw [List.take_of_length_le hcount]
    refine ⟨asciiDigits_toDigits n, Nat.toDigits_ne_nil, .inl (head_toDigits hpos), ?_⟩
    rw [digitsValue_toDigits]
    convert h using 1
    push_cast [hdigits]
    omega
  · -- A power of ten has one digit more, and its last digit is a zero.
    have hpow : 0 < 10 ^ k := Nat.pow_pos (by omega)
    have hlength : (Nat.toDigits 10 (10 ^ k)).length = k + 1 := by
      have hmore := (lt_digitCount_iff hpow).mpr le_rfl
      have hless := (digitCount_le_iff (k := k + 1) hpow).mpr (Nat.pow_lt_pow_succ (by omega))
      rw [digitCount_of_pos hpow] at hmore hless
      omega
    rw [Nat.pow_succ, toDigits_mul_ten hpow, List.take_left' hlength]
    refine ⟨asciiDigits_toDigits _, Nat.toDigits_ne_nil, .inl (head_toDigits hpow), fun s => ?_⟩
    have hreads := h s
    rw [Nat.pow_succ, ofDecimal_mul_ten] at hreads
    rw [digitsValue_toDigits, List.length_append, hlength, ← hreads]
    congr 1
    push_cast
    simp only [List.length_singleton]
    omega

/-- The number above a power of ten reads as a number below it only if the power of ten does. -/
theorem reads_pow {k : Nat} (hcode : code.val ≠ 0)
    (h : Reads (10 ^ (k + 1) + 1) (magnitude (units code) unit - k) code) :
    Reads (10 ^ (k + 1)) (magnitude (units code) unit - k) code := by
  obtain ⟨e, he⟩ : ∃ e, e = magnitude (units code) unit - k := ⟨_, rfl⟩
  rw [← he] at h ⊢
  have hpow : 0 < 10 ^ (k + 1) := Nat.pow_pos (by omega)
  have hreach := inReach_of_ofDecimal hcode (h false)
  have hten : 10 ^ (k + 1) + 1 < 10 ^ (k + 1 + 1) := by rw [Nat.pow_succ 10 (k + 1)]; omega
  have hcount : digitCount (10 ^ (k + 1)) = digitCount (10 ^ (k + 1) + 1) := by
    have hpow' : 0 < 10 ^ (k + 1) + 1 := Nat.succ_pos _
    have hless := (digitCount_le_iff hpow').mpr hten
    have hless' := (digitCount_le_iff hpow).mpr ((Nat.lt_succ_self _).trans hten)
    have hmore := (lt_digitCount_iff (k := k + 1) hpow).mpr le_rfl
    have hmore' := (lt_digitCount_iff (k := k + 1) hpow').mpr (Nat.le_succ _)
    omega
  have hreach' : InReach (10 ^ (k + 1)) e := ⟨hpow.ne', hcount ▸ hreach.2.1, hcount ▸ hreach.2.2⟩
  have hexp : (0 : ℚ) < 10 ^ e := by positivity
  have hbelow : ratOf code ≤ decimal (10 ^ (k + 1)) e := by
    have hlt := (lt_pow_magnitude (units_pos (Nat.pos_of_ne_zero hcode)) unit_pos).le
    rwa [show magnitude (units code) unit + 1 = (k + 1 : Nat) + e by push_cast; omega,
      zpow_add₀ (by norm_num), ← cast_pow_ten] at hlt
  have habove : decimal (10 ^ (k + 1)) e ≤ decimal (10 ^ (k + 1) + 1) e := by
    refine mul_le_mul_of_nonneg_right ?_ hexp.le
    exact_mod_cast Nat.le_succ _
  refine (reads_iff hreach').mpr (Nat.le_antisymm ?_ ?_)
  · calc codeNear (decimal (10 ^ (k + 1)) e) ≤ codeNear (decimal (10 ^ (k + 1) + 1) e) :=
          codeNear_mono (by unfold decimal; positivity) habove
      _ = code := (reads_iff hreach).mp h
  · calc (code : Nat) = codeNear (ratOf code) := (codeNear_ratOf code).symm
      _ ≤ codeNear (decimal (10 ^ (k + 1)) e) :=
          codeNear_mono (ratOf_pos (by omega)).le hbelow

/-- What is found among the neighbours reads back and has no more digits than are sought, or is a
power of ten. -/
theorem writes_of_readsBack? {k : Nat} {d : Digits} (hcode : code.val ≠ 0)
    (h : readsBack? (.finite false code) (k + 1) (units code) unit = some d) : Writes d code := by
  have hm : magnitude (units code) unit - ((k + 1 : Nat) - 1) = magnitude (units code) unit - k := by
    push_cast
    omega
  unfold readsBack? neighbours at h
  dsimp only at h
  rw [hm] at h
  obtain ⟨n, hfind, rfl⟩ := Option.map_eq_some_iff.mp h
  have hfound := List.find?_some hfind
  have hreads : Reads n (magnitude (units code) unit - k) code :=
    reads_of_ofDecimal hcode (eq_of_beq hfound)
  obtain ⟨-, hmost⟩ := roundAt_bounds (units_pos (Nat.pos_of_ne_zero hcode)) unit_pos k
  refine writes_ofRounded (Nat.pos_of_ne_zero fun hzero => ?_) ?_ hreads
  · exact (inReach_of_ofDecimal hcode (hreads false)).1 hzero
  · generalize roundAt (units code) unit (magnitude (units code) unit - k) = nearest at hfind hmost
    by_contra hn
    obtain rfl : n = nearest + 1 := by
      have := List.mem_of_find?_eq_some hfind
      simp only [List.mem_cons, List.not_mem_nil, or_false] at this
      omega
    obtain rfl : nearest = 10 ^ (k + 1) := by omega
    have hfirst := reads_pow hcode hreads false
    rw [List.find?_cons_of_pos (by rw [hfirst]; exact beq_self_eq_true _)] at hfind
    have := Option.some.inj hfind
    omega

/-- **The shortest decimal** of a positive number reads back. -/
theorem writes_shortest (hcode : code.val ≠ 0) : Writes (shortest code) code := by
  unfold shortest
  dsimp only
  cases hfound : (List.range 17).findSome? fun count =>
      readsBack? (.finite false code) (count + 1) (units code) unit with
  | some d =>
    obtain ⟨k, -, hk⟩ := List.exists_of_findSome?_eq_some hfound
    exact writes_of_readsBack? hcode hk
  | none =>
    -- The search ends with seventeen digits at the latest.
    have hnone := List.findSome?_eq_none_iff.mp hfound 16 (List.mem_range.mpr (by omega))
    unfold readsBack? neighbours at hnone
    have hreads := reads_roundAt hcode false
    rw [Option.map_eq_none_iff, List.find?_cons_of_pos] at hnone
    · cases hnone
    · exact beq_iff_eq.mpr hreads

end Decimal

end Spreadsheet
