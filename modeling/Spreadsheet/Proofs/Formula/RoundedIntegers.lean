import Spreadsheet.Proofs.Binary64.Halves
import Spreadsheet.Formula.Evaluation

/-! # Rounding integers

`ROUND` multiplies an integer by a power of ten, which gives an integer again, and takes the floor of
this and a half in the format. So an integer stays what it is if the product is in the format; but an
odd product between 2^52 and 2^53 gives the next integer, a product that is not in the format is
rounded first, and one that is beyond the format makes the function fail (`round_int`). -/

namespace Spreadsheet

open Binary64

/-! ### Quotients and comparisons -/

namespace Number

variable {s : Bool} {code : Fin codes} {n : Int}

/-- **A quotient of an integer** is the number of the format nearest to it. -/
theorem div_int (h : (n.natAbs : ℚ) < limit) {den : Nat} (hden : 0 < den) :
    ∃ code, Nearest (n.natAbs / den) code ∧
      Number.div (.int n) (.int den) = .ok (.float (.finite (n < 0) code)) := by
  have hsign : (decide (n < 0) != decide ((den : Int) < 0)) = decide (n < 0) := by
    rw [decide_eq_false (by omega : ¬ (den : Int) < 0), Bool.bne_false]
  have hquotient : quotient? n den = (ofRatio (n < 0) n.natAbs den).finite? := by
    rw [quotient?, hsign, Int.natAbs_natCast]
  have hless : (n.natAbs / den : ℚ) < limit := by
    have hone : (1 : ℚ) ≤ den := by exact_mod_cast hden
    exact (div_le_self (by positivity) hone).trans_lt h
  rcases roundsTo_iff.mp (roundsTo_ofRatio (n < 0) n.natAbs hden)
    with ⟨code, hnear, hx⟩ | ⟨hbeyond, -⟩
  · refine ⟨code, hnear, ?_⟩
    rw [Number.div, hquotient, hx]
    rfl
  · exact absurd hless (not_lt.mpr hbeyond)

theorem order?_finite_int : (float (.finite s code)).order? (int n) =
    some (compare (signedUnits s code) (n * unit)) := rfl

/-- A number of the format equals an integer if its units are those of the integer. -/
theorem order?_int_eq_iff : (float (.finite s code)).order? (int n) = some .eq ↔
    signedUnits s code = n * unit := by
  rw [order?_finite_int, Option.some.injEq, Int.compare_eq_eq]

/-- A number of the format equals the integer of its sign and its magnitude. -/
theorem order?_eq_of_ratOf {x : Int} (hsign : n < 0 ↔ x < 0) (h : ratOf code = n.natAbs) :
    (float (.finite (x < 0) code)).order? (int n) = some .eq := by
  rw [order?_int_eq_iff, ← decide_eq_decide.mpr hsign]
  exact signedUnits_eq_iff.mpr h

/-- An integer becomes the number nearest to its magnitude, with its sign, or none. -/
theorem ofIntNearest_natAbs (n : Int) :
    (∃ code, Nearest n.natAbs code ∧ ofIntNearest n = .ok (.finite (n < 0) code)) ∨
      limit ≤ n.natAbs ∧ ofIntNearest n = .error .integer := by
  rw [Nat.cast_natAbs, Int.cast_abs]
  exact ofIntNearest_cases n

end Number

/-! ### Rounding -/

namespace Function

variable {x digits : Int} {d : Nat} {s : Bool} {c : Fin codes} {w : Int}

/-- How many decimal places an integer asks for. -/
def clamped (digits : Int) : Nat :=
  (Max.max 0 (Min.min 10 digits)).toNat

theorem places_int (h : (digits.natAbs : ℚ) < limit) :
    places (.int digits) = .ok (clamped digits) := by
  rcases Number.ofIntNearest_natAbs digits with ⟨code, -, hint⟩ | ⟨hbeyond, -⟩
  · rw [places, hint]
    rfl
  · exact absurd h (not_lt.mpr hbeyond)

theorem places_beyond (h : limit ≤ digits.natAbs) : places (.int digits) = .error .integer := by
  rcases Number.ofIntNearest_natAbs digits with ⟨code, hnear, -⟩ | ⟨-, hint⟩
  · exact absurd hnear.lt_limit (not_lt.mpr h)
  · rw [places, hint]
    rfl

-- Unfolding a bind makes Lean compute the rounding on open terms; so binds are only rewritten.

theorem ok_bind {ε α β : Type} (a : α) (f : α → Except ε β) : (Except.ok a >>= f) = f a := rfl

theorem error_bind {ε α β : Type} (e : ε) (f : α → Except ε β) :
    ((.error e : Except ε α) >>= f) = .error e := rfl

theorem toFloat_mul (x : Int) (d : Nat) : ((Number.int x).mul (.int (Decimal.powerOfTen d)) >>=
    Number.toFloat) = Number.ofIntNearest (x * 10 ^ d) := by
  have hpower : (Decimal.powerOfTen d : Int) = 10 ^ d := by
    rw [Decimal.powerOfTen_eq, Nat.cast_pow, Nat.cast_ofNat]
  have hmul : (Number.int x).mul (.int (Decimal.powerOfTen d)) =
      .ok (.int (x * Decimal.powerOfTen d)) := rfl
  rw [hmul, ok_bind, Number.toFloat, hpower]

theorem roundTo_int (hscaled : Number.ofIntNearest (x * 10 ^ d) = .ok (.finite s c))
    (hfloor : (Binary64.finite s c).halfUp? = some w) :
    roundTo (.int x) d = Number.div (.int w) (.int (10 ^ d : Nat)) := by
  have hfinite : (Binary64.finite s c).isFinite = true := rfl
  rw [roundTo, ← bind_assoc, toFloat_mul, hscaled, ok_bind, if_pos hfinite, hfloor,
    Option.elim_some, Decimal.powerOfTen_eq]

theorem roundTo_beyond (hscaled : Number.ofIntNearest (x * 10 ^ d) = .error .integer) :
    roundTo (.int x) d = .error .integer := by
  rw [roundTo, ← bind_assoc, toFloat_mul, hscaled, error_bind]

theorem apply_round (x digits : Int) : apply .round [.int x, .int digits] =
    Number.orFault (places (.int digits) >>= roundTo (.int x)) := by
  have hnumber : ∀ n : Int, (Value.int n).toNumber = .ok (.int n) := fun _ => rfl
  rw [apply]
  show ((Value.int x).toNumber >>= fun x => (Value.int digits).toNumber >>= fun digits =>
    Number.orFault (places digits >>= roundTo x)) = _
  rw [hnumber, ok_bind, hnumber, ok_bind]

/-- The integer that is rounded, times the power of ten. -/
def scaled (x digits : Int) : Int :=
  x * 10 ^ clamped digits

theorem scaled_neg_iff : scaled x digits < 0 ↔ x < 0 := by
  have hpower : (0 : Int) < 10 ^ clamped digits := by positivity
  exact ⟨fun h => neg_of_mul_neg_left h hpower.le, fun h => mul_neg_of_neg_of_pos h hpower⟩

/-- An odd product is the integer itself. -/
theorem scaled_of_tied (h : Tied (scaled x digits)) :
    clamped digits = 0 ∧ scaled x digits = x := by
  have hodd := h.1
  unfold scaled at hodd ⊢
  cases hplaces : clamped digits with
  | zero => exact ⟨rfl, by rw [pow_zero, mul_one]⟩
  | succ d =>
    have hten : x * 10 ^ (d + 1) = 2 * (x * 10 ^ d * 5) := by ring
    rw [hplaces, hten] at hodd
    omega

theorem natAbs_halfUp_lt {z : Int} (h : ratOf c = z.natAbs) : ((halfUp z).natAbs : ℚ) < limit := by
  unfold halfUp
  split_ifs with htied
  · have hle : (z + 1).natAbs ≤ 2 ^ 53 := by
      have := htied.2.2
      omega
    exact natAbs_lt_limit hle
  · rw [← h]
    exact ratOf_lt_limit_iff.mpr c.isLt

/-- `ROUND` fails beyond the format. -/
theorem round_beyond (h : limit ≤ digits.natAbs ∨ limit ≤ (scaled x digits).natAbs) :
    apply .round [.int x, .int digits] = .error (.overflow .integer) := by
  by_cases hdigits : limit ≤ digits.natAbs
  · rw [apply_round, places_beyond hdigits, error_bind]
    rfl
  · rcases Number.ofIntNearest_natAbs (scaled x digits) with ⟨code, hnear, -⟩ | ⟨-, hint⟩
    · exact absurd hnear.lt_limit (not_lt.mpr (h.resolve_left hdigits))
    · rw [apply_round, places_int (not_le.mp hdigits), ok_bind, roundTo_beyond hint]
      rfl

/-- **`ROUND` rounds three times**: the product, its sum with a half, and the quotient. -/
theorem round_steps (hdigits : (digits.natAbs : ℚ) < limit)
    (hless : ((scaled x digits).natAbs : ℚ) < limit) :
    ∃ (c : Fin codes) (z : Int) (code : Fin codes), Nearest (scaled x digits).natAbs c ∧
      ratOf c = z.natAbs ∧ (InFormat (scaled x digits) → z = scaled x digits) ∧
      (¬ InFormat (scaled x digits) → 2 ^ 53 ≤ z.natAbs) ∧
      Nearest ((halfUp z).natAbs / 10 ^ clamped digits) code ∧
      apply .round [.int x, .int digits] = .ok (.scalar (.float (.finite (x < 0) code))) := by
  rcases Number.ofIntNearest_natAbs (scaled x digits) with ⟨c, hc, hscaled⟩ | ⟨hbeyond, -⟩
  · obtain ⟨z, hz, hsign, hin, hnot⟩ := exists_rounded hc
    have hratOf := ratOf_of_signedUnits hz
    have hnegative : halfUp z < 0 ↔ x < 0 := by
      rw [scaled_neg_iff] at hsign
      rw [← hsign]
      unfold halfUp Tied
      split_ifs <;> omega
    obtain ⟨code, hcode, hdiv⟩ := Number.div_int (natAbs_halfUp_lt hratOf)
      (show 0 < 10 ^ clamped digits by positivity)
    refine ⟨c, z, code, hc, hratOf, hin, hnot, by exact_mod_cast hcode, ?_⟩
    rw [apply_round, places_int hdigits, ok_bind, roundTo_int hscaled (halfUp?_integer hz), hdiv,
      decide_eq_decide.mpr hnegative]
    rfl
  · exact absurd hless (not_lt.mpr hbeyond)

/-- A product in the format that does not tie is divided back to the integer. -/
theorem round_exact (hdigits : (digits.natAbs : ℚ) < limit) (hformat : InFormat (scaled x digits))
    (htied : ¬ Tied (scaled x digits)) : ∃ code : Fin codes, ratOf code = x.natAbs ∧
      apply .round [.int x, .int digits] = .ok (.scalar (.float (.finite (x < 0) code))) := by
  obtain ⟨c, z, code, -, -, hin, -, hcode, hround⟩ := round_steps hdigits hformat.lt_limit
  -- The integer is in the format because the product is, so the quotient is not rounded.
  obtain ⟨other, hother⟩ := inFormat_of_mul_pow hformat
  have hhalf : halfUp z = x * 10 ^ clamped digits := by
    rw [hin hformat, halfUp, if_neg htied, scaled]
  have hquotient : ((halfUp z).natAbs : ℚ) / 10 ^ clamped digits = x.natAbs := by
    rw [hhalf, Int.natAbs_mul, Int.natAbs_pow, div_eq_iff (by positivity)]
    push_cast
    rfl
  rw [hquotient] at hcode
  exact ⟨code, hcode.ratOf_eq hother, hround⟩

/-- A product that ties gives the next integer. -/
theorem round_tied (hdigits : (digits.natAbs : ℚ) < limit) (htied : Tied (scaled x digits)) :
    ∃ code : Fin codes, ratOf code = (x + 1).natAbs ∧
      apply .round [.int x, .int digits] = .ok (.scalar (.float (.finite (x < 0) code))) := by
  have hformat : InFormat (scaled x digits) := inFormat_of_le htied.2.2.le
  obtain ⟨c, z, code, -, -, hin, -, hcode, hround⟩ := round_steps hdigits hformat.lt_limit
  obtain ⟨hplaces, hsame⟩ := scaled_of_tied htied
  have hhalf : halfUp z = x + 1 := by
    rw [hin hformat, halfUp, if_pos htied, hsame]
  have hnext : (x + 1).natAbs ≤ 2 ^ 53 := by
    have hless := htied.2.2
    rw [hsame] at hless
    omega
  obtain ⟨other, hother⟩ := inFormat_of_le hnext
  rw [hhalf, hplaces, pow_zero, div_one] at hcode
  exact ⟨code, hcode.ratOf_eq hother, hround⟩

/-- **What `ROUND` makes of an integer.** It fails if the number of digits, or the integer times the
power of ten, is beyond the format. Otherwise it gives the integer if the product is in the format and
not odd between 2^52 and 2^53; the next integer if it is; and if the product is not in the format, what
the number nearest to the product gives when it is divided again. -/
theorem round_int (x digits : Int) :
    (limit ≤ digits.natAbs ∨ limit ≤ (scaled x digits).natAbs →
      apply .round [.int x, .int digits] = .error (.overflow .integer)) ∧
    ((digits.natAbs : ℚ) < limit → ((scaled x digits).natAbs : ℚ) < limit → ∃ r : Number,
      apply .round [.int x, .int digits] = .ok (.scalar (.number r)) ∧
      (InFormat (scaled x digits) → ¬ Tied (scaled x digits) → r.order? (.int x) = some .eq) ∧
      (Tied (scaled x digits) → r.order? (.int (x + 1)) = some .eq) ∧
      (¬ InFormat (scaled x digits) → ∃ c code : Fin codes, Nearest (scaled x digits).natAbs c ∧
        Nearest (ratOf c / 10 ^ clamped digits) code ∧ r = .float (.finite (x < 0) code))) := by
  refine ⟨round_beyond, fun hdigits hless => ?_⟩
  by_cases htied : Tied (scaled x digits)
  · have hformat : InFormat (scaled x digits) := inFormat_of_le htied.2.2.le
    have hsign : x + 1 < 0 ↔ x < 0 := by
      obtain ⟨-, hsame⟩ := scaled_of_tied htied
      have hlow := htied.2.1
      rw [hsame] at hlow
      omega
    obtain ⟨code, hratOf, hround⟩ := round_tied hdigits htied
    exact ⟨_, hround, fun _ hnot => absurd htied hnot,
      fun _ => Number.order?_eq_of_ratOf hsign hratOf, fun hnot => absurd hformat hnot⟩
  · by_cases hformat : InFormat (scaled x digits)
    · obtain ⟨code, hratOf, hround⟩ := round_exact hdigits hformat htied
      exact ⟨_, hround, fun _ _ => Number.order?_eq_of_ratOf Iff.rfl hratOf,
        fun h => absurd h htied, fun hnot => absurd hformat hnot⟩
    · obtain ⟨c, z, code, hc, hratOf, -, hnot, hcode, hround⟩ := round_steps hdigits hless
      have hhalf : halfUp z = z := if_neg fun h => absurd h.2.2 (not_lt.mpr (hnot hformat))
      rw [hhalf, ← hratOf] at hcode
      exact ⟨_, hround, fun h => absurd h hformat, fun h => absurd h htied,
        fun _ => ⟨c, code, hc, hcode, rfl⟩⟩

/-- An odd integer beyond 2^53 is not in the format. -/
theorem not_inFormat_of_odd {z : Int} (hodd : z % 2 = 1) (h : 2 ^ 53 < z.natAbs) :
    ¬ InFormat z := by
  intro hformat
  obtain ⟨-, m, k, hm, hz⟩ := inFormat_iff.mp hformat
  cases k with
  | zero => omega
  | succ k =>
    have heven : z.natAbs = 2 * (m * 2 ^ k) := by
      rw [hz]
      ring
    omega

theorem round_int_cases :
    ((2 : Int).natAbs : ℚ) < limit ∧ InFormat (scaled 5 2) ∧ ¬ Tied (scaled 5 2) ∧
    (∃ r, apply .round [.int 5, .int 2] = .ok (.scalar (.number r)) ∧
      r.order? (.int 5) = some .eq) ∧
    Tied (scaled (2 ^ 52 + 1) (-3)) ∧
    (∃ r, apply .round [.int (2 ^ 52 + 1), .int (-3)] = .ok (.scalar (.number r)) ∧
      r.order? (.int (2 ^ 52 + 1 + 1)) = some .eq) ∧
    ¬ InFormat (scaled (2 ^ 53 + 1) 0) ∧ ((scaled (2 ^ 53 + 1) 0).natAbs : ℚ) < limit ∧
    (∃ c code : Fin codes, Nearest (scaled (2 ^ 53 + 1) 0).natAbs c ∧
      Nearest (ratOf c / 10 ^ clamped 0) code ∧
      apply .round [.int (2 ^ 53 + 1), .int 0] = .ok (.scalar (.float (.finite false code)))) ∧
    limit ≤ ((2 ^ 1024 : Int).natAbs : ℚ) ∧
    apply .round [.int 5, .int (2 ^ 1024)] = .error (.overflow .integer) := by
  have hfew : ∀ z : Int, z.natAbs ≤ 10 → (z.natAbs : ℚ) < limit := fun z hz =>
    natAbs_lt_limit (by omega)
  have hexact : InFormat (scaled 5 2) := inFormat_of_le (by decide)
  have hnot : ¬ Tied (scaled 5 2) := by decide
  have htied : Tied (scaled (2 ^ 52 + 1) (-3)) := by decide
  have hformat : InFormat (scaled (2 ^ 52 + 1) (-3)) := inFormat_of_le htied.2.2.le
  have hodd : ¬ InFormat (scaled (2 ^ 53 + 1) 0) := not_inFormat_of_odd (by decide) (by decide)
  have hless : ((scaled (2 ^ 53 + 1) 0).natAbs : ℚ) < limit := by
    have hlimit : (2 : ℚ) ^ 54 < limit := two_pow_lt_limit (by omega)
    have hcast : ((scaled (2 ^ 53 + 1) 0).natAbs : ℚ) ≤ 2 ^ 54 := by
      exact_mod_cast (show (scaled (2 ^ 53 + 1) 0).natAbs ≤ 2 ^ 54 by decide)
    exact hcast.trans_lt hlimit
  have hpower : ∀ k, k = 1024 → limit ≤ ((2 ^ k : Int).natAbs : ℚ) := fun k hk => by
    rw [Int.natAbs_pow, Nat.cast_pow]
    exact limit_le_two_pow hk
  have hbeyond := hpower 1024 rfl
  obtain ⟨r, hround, heq, -, -⟩ := (round_int 5 2).2 (hfew 2 (by decide)) hexact.lt_limit
  obtain ⟨r', hround', -, heq', -⟩ :=
    (round_int (2 ^ 52 + 1) (-3)).2 (hfew (-3) (by decide)) hformat.lt_limit
  obtain ⟨r'', hround'', -, -, hnear⟩ := (round_int (2 ^ 53 + 1) 0).2 (hfew 0 (by decide)) hless
  obtain ⟨c, code, hc, hcode, rfl⟩ := hnear hodd
  exact ⟨hfew 2 (by decide), hexact, hnot, ⟨r, hround, heq hexact hnot⟩, htied,
    ⟨r', hround', heq' htied⟩, hodd, hless, ⟨c, code, hc, hcode, hround''⟩, hbeyond,
    (round_int 5 (2 ^ 1024)).1 (.inl hbeyond)⟩

/-- **An integer that `ROUND` changes**: 2^52 + 1 becomes the next one. -/
theorem not_equal_of_tied : ¬ ∀ x digits : Int, ∃ r : Number,
    apply .round [.int x, .int digits] = .ok (.scalar (.number r)) ∧
      r.order? (.int x) = some .eq := by
  intro h
  have htied : Tied (scaled 4503599627370497 0) := by decide
  obtain ⟨code, hratOf, hround⟩ :=
    round_tied (natAbs_lt_limit (show (0 : Int).natAbs ≤ 2 ^ 53 by decide)) htied
  obtain ⟨r, hr, heq⟩ := h 4503599627370497 0
  rw [hround] at hr
  cases hr
  have hsame := ratOf_of_signedUnits (Number.order?_int_eq_iff.mp heq)
  rw [hratOf] at hsame
  exact absurd (Nat.cast_injective hsame) (by decide)

end Function

end Spreadsheet
