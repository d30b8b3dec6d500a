import Spreadsheet.Decimal.Reading
import Spreadsheet.Numeral
import Spreadsheet.Proofs.Text

/-! # Decimal numerals

The numeral of a number is a row of ASCII digits that does not start with a zero, unless it is the
numeral of zero. Reading it gives the number back (`digitsValue_toDigits`), zeros in front of it
change nothing, and a zero after it makes ten times the number. The numbers that can be written are
those that can be read (`Numeral.read_toDigits`, `Numeral.lt_of_read`). -/

namespace Spreadsheet

namespace Decimal

/-! ### ASCII digits -/

theorem isAsciiDigit_iff {c : Char} : isAsciiDigit c = true ↔ 48 ≤ c.toNat ∧ c.toNat ≤ 57 := by
  simp [isAsciiDigit]

theorem isAsciiDigit_of_isDigit {c : Char} (h : c.isDigit = true) : isAsciiDigit c = true :=
  isAsciiDigit_iff.mpr (Label.isDigit_iff.mp h)

theorem digitValue?_of_ascii {c : Char} (h : isAsciiDigit c = true) :
    Text.digitValue? c = some (c.toNat - 48) := by
  rw [isAsciiDigit_iff] at h
  rw [Text.digitValue?, Text.scriptZeros, List.findSome?_cons, if_pos (by omega)]

/-- A row of ASCII digits. -/
def AsciiDigits (cs : List Char) : Prop :=
  ∀ c ∈ cs, isAsciiDigit c = true

theorem asciiDigits_nil : AsciiDigits [] := fun _ h => by cases h

theorem asciiDigits_toDigits (n : Nat) : AsciiDigits (Nat.toDigits 10 n) := fun _ hc =>
  isAsciiDigit_of_isDigit (Nat.isDigit_of_mem_toDigits (by omega) (by omega) hc)

theorem asciiDigits_replicate (k : Nat) : AsciiDigits (List.replicate k '0') := fun c hc => by
  rw [List.eq_of_mem_replicate hc]
  decide

theorem AsciiDigits.append {cs ds : List Char} (hcs : AsciiDigits cs) (hds : AsciiDigits ds) :
    AsciiDigits (cs ++ ds) := fun c hc =>
  (List.mem_append.mp hc).elim (hcs c) (hds c)

theorem AsciiDigits.all {cs : List Char} (h : AsciiDigits cs) : cs.all isAsciiDigit = true :=
  List.all_eq_true.mpr h

/-! ### The value of a row of digits -/

/-- On ASCII digits the value in base ten is that of the standard library. -/
theorem digitsValue_eq {cs : List Char} (h : AsciiDigits cs) :
    Text.digitsValue cs = Nat.ofDigitChars 10 cs 0 := by
  have hfold : ∀ n, cs.foldl (fun n c => n * 10 + (Text.digitValue? c).getD 0) n
      = Nat.ofDigitChars 10 cs n := by
    induction cs with
    | nil => exact fun _ => rfl
    | cons c cs ih =>
      intro n
      have hc := h c List.mem_cons_self
      rw [List.foldl_cons, digitValue?_of_ascii hc, Option.getD_some,
        ih (fun d hd => h d (List.mem_cons_of_mem c hd)), Nat.ofDigitChars_cons, Nat.mul_comm]
      rfl
  exact hfold 0

theorem digitsValue_toDigits (n : Nat) : Text.digitsValue (Nat.toDigits 10 n) = n := by
  rw [digitsValue_eq (asciiDigits_toDigits n), Nat.ofDigitChars_toDigits (by omega) le_rfl]

theorem digitsValue_append (cs ds : List Char) :
    Text.digitsValue (cs ++ ds) = ds.foldl (fun n c => n * 10 + (Text.digitValue? c).getD 0)
      (Text.digitsValue cs) :=
  List.foldl_append

theorem digitsValue_zeros_append (k : Nat) (cs : List Char) :
    Text.digitsValue (List.replicate k '0' ++ cs) = Text.digitsValue cs := by
  have hzero : Text.digitsValue (List.replicate k '0') = 0 := by
    rw [digitsValue_eq (asciiDigits_replicate k), Nat.ofDigitChars_replicate_zero, Nat.mul_zero]
  rw [digitsValue_append, hzero]
  rfl

theorem digitsValue_append_zeros (cs : List Char) (k : Nat) :
    Text.digitsValue (cs ++ List.replicate k '0') = Text.digitsValue cs * 10 ^ k := by
  induction k with
  | zero => simp
  | succ k ih =>
    rw [List.replicate_succ', ← List.append_assoc, digitsValue_append, ih]
    show _ * 10 + 0 = _
    rw [Nat.pow_succ, Nat.mul_assoc, Nat.add_zero]

/-- As many places are made as digits stand after a row. -/
theorem digitsValue_append_digits {cs ds : List Char} (hcs : AsciiDigits cs)
    (hds : AsciiDigits ds) : Text.digitsValue (cs ++ ds)
      = Text.digitsValue cs * 10 ^ ds.length + Text.digitsValue ds := by
  rw [digitsValue_eq (hcs.append hds), digitsValue_eq hcs, digitsValue_eq hds,
    Nat.ofDigitChars_append, Nat.ofDigitChars_eq_ofDigitChars_zero, Nat.mul_comm]

theorem digitsValue_padZeros (width n : Nat) :
    Text.digitsValue (Text.padZeros width (Nat.toDigits 10 n)) = n := by
  rw [Text.padZeros, digitsValue_zeros_append, digitsValue_toDigits]

theorem asciiDigits_padZeros (width n : Nat) :
    AsciiDigits (Text.padZeros width (Nat.toDigits 10 n)) :=
  (asciiDigits_replicate _).append (asciiDigits_toDigits n)

theorem digitsValue_lt (cs : List Char) : Text.digitsValue cs < 10 ^ cs.length := by
  induction cs using List.reverseRecOn with
  | nil => decide
  | append_singleton cs c ih =>
    have hdigit : (Text.digitValue? c).getD 0 < 10 := by
      cases hc : Text.digitValue? c with
      | none => decide
      | some d => exact Text.digitValue?_lt hc
    rw [digitsValue_append, List.length_append, List.length_singleton, Nat.pow_succ]
    simp only [List.foldl_cons, List.foldl_nil]
    omega

/-- A row of characters has zeros at its end, or none. -/
theorem exists_append_zeros (cs : List Char) : ∃ ds k, cs = ds ++ List.replicate k '0' ∧
    ∀ c ∈ ds.getLast?, c ≠ '0' := by
  induction cs using List.reverseRecOn with
  | nil => exact ⟨[], 0, rfl, by simp⟩
  | append_singleton cs c ih =>
    by_cases hc : c = '0'
    · obtain ⟨ds, k, rfl, hlast⟩ := ih
      exact ⟨ds, k + 1, by rw [hc, List.append_assoc, ← List.replicate_succ'], hlast⟩
    · exact ⟨cs ++ [c], 0, by simp, by simpa using hc⟩

/-! ### How many digits -/

theorem lt_length_toDigits_iff {n k : Nat} (hk : 0 < k) :
    k < (Nat.toDigits 10 n).length ↔ 10 ^ k ≤ n := by
  rw [← not_iff_not, not_lt, not_le]
  exact Nat.length_toDigits_le_iff (by omega) hk

theorem digitChar_ne_zero : ∀ n < 10, 0 < n → n.digitChar ≠ '0' := by
  decide

theorem head_toDigits {n : Nat} (hn : 0 < n) : ∀ c ∈ (Nat.toDigits 10 n).head?, c ≠ '0' := by
  induction n using Nat.strongRecOn with
  | ind n ih =>
    intro c hc
    rcases Nat.lt_or_ge n 10 with hlt | hge
    · rw [Nat.toDigits_of_lt_base hlt] at hc
      obtain rfl := Option.some.inj hc
      exact digitChar_ne_zero n hlt hn
    · rw [Nat.toDigits_of_base_le (by omega) hge, List.head?_append_of_ne_nil _ Nat.toDigits_ne_nil]
        at hc
      exact ih (n / 10) (by omega) (by omega) c hc

theorem toDigits_mul_ten {n : Nat} (hn : 0 < n) :
    Nat.toDigits 10 (n * 10) = Nat.toDigits 10 n ++ ['0'] := by
  rw [Nat.toDigits_of_base_le (by omega) (by omega), show n * 10 / 10 = n by omega,
    show n * 10 % 10 = 0 by omega]
  rfl

theorem digitCount_of_pos {n : Nat} (hn : 0 < n) : digitCount n = (Nat.toDigits 10 n).length :=
  if_neg (by omega)

theorem digitCount_mul_ten {n : Nat} (hn : 0 < n) : digitCount (n * 10) = digitCount n + 1 := by
  rw [digitCount_of_pos hn, digitCount_of_pos (by omega), toDigits_mul_ten hn, List.length_append]
  rfl

theorem digitCount_le_iff {n k : Nat} (hn : 0 < n) : digitCount n ≤ k ↔ n < 10 ^ k := by
  rw [digitCount_of_pos hn]
  rcases Nat.eq_zero_or_pos k with rfl | hk
  · have := Nat.length_toDigits_pos (b := 10) (n := n)
    omega
  · exact Nat.length_toDigits_le_iff (by omega) hk

theorem lt_digitCount_iff {n k : Nat} (hn : 0 < n) : k < digitCount n ↔ 10 ^ k ≤ n := by
  rw [← not_iff_not, not_lt, not_le]
  exact digitCount_le_iff hn

theorem digitCount_pos {n : Nat} (hn : 0 < n) : 0 < digitCount n :=
  (lt_digitCount_iff hn).mpr (by omega)

theorem lt_pow_digitCount {n : Nat} (hn : 0 < n) : n < 10 ^ digitCount n :=
  (digitCount_le_iff hn).mp le_rfl

theorem pow_digitCount_le {n : Nat} (hn : 0 < n) : 10 ^ (digitCount n - 1) ≤ n :=
  (lt_digitCount_iff hn).mp (by have := digitCount_pos hn; omega)

theorem powerOfTen_eq (k : Nat) : powerOfTen k = 10 ^ k := rfl

end Decimal

/-! ### Numerals that can be read and written -/

namespace Numeral

variable {n : Nat}

theorem write_natCast (n : Nat) : write n =
    if n < 10 ^ numeralLimit then .ok (toString n) else .error .integerTooLong := by
  rw [write, Int.natAbs_natCast, Decimal.powerOfTen_eq]
  rfl

/-- A refusal that names the number it refuses gives no result, whether or not that can be written. -/
theorem refusal_ne_ok {α : Type} {number : Int} {refuse : String → Fault} {a : α} :
    (do throw (refuse (← write number)) : Except Fault α) ≠ .ok a := by
  intro h
  cases hwrite : write number <;> rw [hwrite] at h <;> cases h

/-- A numeral is read, or it has too many digits. -/
theorem read_cases (digits : List Char) :
    digits.length ≤ numeralLimit ∧ read digits = .ok (Text.digitsValue digits) ∨
      numeralLimit < digits.length ∧ read digits = .error (.numeralTooLong digits.length) := by
  rw [read]
  rcases Nat.lt_or_ge numeralLimit digits.length with h | h
  · exact .inr ⟨h, if_neg (Nat.not_le.mpr h)⟩
  · exact .inl ⟨h, if_pos h⟩

theorem read_toDigits (h : n < 10 ^ numeralLimit) : read (Nat.toDigits 10 n) = .ok n := by
  have hlength : (Nat.toDigits 10 n).length ≤ numeralLimit :=
    (Nat.length_toDigits_le_iff (by omega) (by decide)).mpr h
  rw [read, if_pos hlength, Decimal.digitsValue_toDigits]

/-- Whatever its zeros, a numeral that can be read stands for a number that can be written. -/
theorem lt_of_read {digits : List Char} (h : read digits = .ok n) : n < 10 ^ numeralLimit := by
  unfold read at h
  split at h
  · next hlength =>
    rw [← Except.ok.inj h]
    exact Nat.lt_of_lt_of_le (Decimal.digitsValue_lt digits)
      (Nat.pow_le_pow_right (by omega) hlength)
  · cases h

end Numeral

end Spreadsheet
