import Spreadsheet.Decimal.Layout
import Spreadsheet.Decimal.Reading
import Spreadsheet.Proofs.Decimal.Shortest

/-! # Written decimals in parts

The text of a number has parts: a sign, digits before the point, digits after it, and an exponent
(`Parts`). Reading the text puts the parts together (`Parts.read?_text`). However a decimal is laid
out, with the point in its place or with a power of ten, the parts of its text stand for it
(`exists_parts`); so the text with the fewest digits is read as the number that it was written for
(`exists_parts_write`). -/

namespace Spreadsheet

namespace Decimal

open Binary64

/-! ### Rows of digits in a text -/

/-- What follows the digits of a number: no digit. -/
def NoDigit (rest : List Char) : Prop :=
  ∀ c ∈ rest.head?, isAsciiDigit c = false

theorem noDigit_nil : NoDigit [] := fun _ h => by cases h

theorem noDigit_cons {c : Char} (h : isAsciiDigit c = false) (rest : List Char) :
    NoDigit (c :: rest) := fun d hd => by
  obtain rfl := Option.some.inj hd
  exact h

theorem takeWhile_digits {ds rest : List Char} (hds : AsciiDigits ds) (hrest : NoDigit rest) :
    (ds ++ rest).takeWhile isAsciiDigit = ds := by
  rw [List.takeWhile_append_of_pos hds]
  cases rest with
  | nil => simp
  | cons c rest =>
    rw [List.takeWhile_cons_of_neg (by rw [hrest c rfl]; decide), List.append_nil]

theorem dropWhile_digits {ds rest : List Char} (hds : AsciiDigits ds) (hrest : NoDigit rest) :
    (ds ++ rest).dropWhile isAsciiDigit = rest := by
  rw [List.dropWhile_append_of_pos hds]
  cases rest with
  | nil => rfl
  | cons c rest => rw [List.dropWhile_cons_of_neg (by rw [hrest c rfl]; decide)]

/-! ### The parts of a number's text -/

/-- The parts of a number's text: whether it has a minus, the digits before and after the point, and
the exponent, if there is one, by its sign and its digits. -/
structure Parts where
  negative : Bool
  whole : List Char
  fraction : List Char := []
  exponent : Option (Bool × List Char) := none

namespace Parts

/-- The point and the digits after it. -/
def fractionText (p : Parts) : List Char :=
  if p.fraction = [] then [] else '.' :: p.fraction

/-- The letter of the exponent, its sign and its digits. -/
def exponentText (p : Parts) : List Char :=
  match p.exponent with
  | none => []
  | some (negative, digits) => 'e' :: (if negative then '-' else '+') :: digits

/-- The text. -/
def text (p : Parts) : List Char :=
  sign p.negative ++ p.whole ++ p.fractionText ++ p.exponentText

/-- The digits as one number. -/
def digits (p : Parts) : Nat :=
  Text.digitsValue (p.whole ++ p.fraction)

/-- The number that the exponent writes. -/
def exponentValue (p : Parts) : Int :=
  match p.exponent with
  | none => 0
  | some (negative, digits) =>
    if negative then -Text.digitsValue digits else Text.digitsValue digits

/-- The parts are digits, there is one before the point, and only a single digit there is a zero in
front. -/
structure Valid (p : Parts) : Prop where
  whole : AsciiDigits p.whole
  nonempty : p.whole ≠ []
  leading : (∀ c ∈ p.whole.head?, c ≠ '0') ∨ p.whole = ['0']
  fraction : AsciiDigits p.fraction
  exponent : ∀ x ∈ p.exponent, AsciiDigits x.2 ∧ x.2 ≠ []

variable {p : Parts}

theorem noDigit_exponentText (p : Parts) : NoDigit p.exponentText := by
  unfold exponentText
  split
  · exact noDigit_nil
  · exact noDigit_cons (by decide) _

theorem takeSign_digits {cs : List Char} (h : ∀ c ∈ cs.head?, isAsciiDigit c = true) (hcs : cs ≠ [])
    (negative : Bool) : takeSign (sign negative ++ cs) = (negative, cs) := by
  obtain ⟨c, rest, rfl⟩ := List.exists_cons_of_ne_nil hcs
  have hc := h c rfl
  cases negative with
  | true => rfl
  | false =>
    unfold takeSign sign
    split
    · next heq =>
      obtain ⟨rfl, -⟩ := List.cons.inj heq
      exact absurd hc (by decide)
    · next heq =>
      obtain ⟨rfl, -⟩ := List.cons.inj heq
      exact absurd hc (by decide)
    · rfl

theorem Valid.head_whole (h : p.Valid) (rest : List Char) :
    ∀ c ∈ (p.whole ++ rest).head?, isAsciiDigit c = true := fun c hc => by
  rw [List.head?_append_of_ne_nil _ h.nonempty] at hc
  exact h.whole c (List.mem_of_mem_head? hc)

theorem Valid.takeMantissa (h : p.Valid) :
    takeMantissa (p.whole ++ p.fractionText ++ p.exponentText)
      = some (p.whole, p.fraction, p.exponentText) := by
  have hexp := noDigit_exponentText p
  have hwhole : p.whole.isEmpty = false := by simpa using h.nonempty
  unfold fractionText
  split
  · next hnone =>
    rw [List.append_nil]
    unfold Decimal.takeMantissa
    dsimp only
    rw [takeWhile_digits h.whole hexp, dropWhile_digits h.whole hexp, hnone]
    split
    · next rest heq =>
      unfold exponentText at heq
      split at heq <;> cases heq
    · rw [if_neg (by simpa using h.nonempty)]
  · next hsome =>
    have hpoint : NoDigit ('.' :: (p.fraction ++ p.exponentText)) := noDigit_cons (by decide) _
    unfold Decimal.takeMantissa
    dsimp only
    rw [List.append_assoc, List.cons_append, takeWhile_digits h.whole hpoint,
      dropWhile_digits h.whole hpoint]
    split
    · next rest heq =>
      obtain ⟨-, rfl⟩ := List.cons.inj heq
      rw [takeWhile_digits h.fraction hexp, dropWhile_digits h.fraction hexp, hwhole]
      rfl
    · next hother => exact absurd rfl (hother _)

theorem Valid.exponent?_text (h : p.Valid) : exponent? p.exponentText = some p.exponentValue := by
  unfold exponentText exponentValue
  split
  · rfl
  · next negative digits heq =>
    obtain ⟨hdigits, hnonempty⟩ := h.exponent _ heq
    have hsign : takeSign ((if negative then '-' else '+') :: digits) = (negative, digits) := by
      cases negative <;> rfl
    unfold exponent?
    dsimp only
    rw [hsign]
    dsimp only
    rw [if_pos ⟨.inl rfl, hnonempty, hdigits.all⟩]

/-- **The text is read** as the decimal that its parts stand for. -/
theorem Valid.read?_text (h : p.Valid) :
    read? p.text = some (.ofDecimal p.negative p.digits (p.exponentValue - p.fraction.length)) := by
  have hsign : takeSign p.text
      = (p.negative, p.whole ++ p.fractionText ++ p.exponentText) := by
    unfold text
    rw [List.append_assoc, List.append_assoc]
    refine (takeSign_digits (h.head_whole _) ?_ _).trans ?_
    · simp [h.nonempty]
    · rw [List.append_assoc]
  unfold read?
  rw [hsign]
  dsimp only
  rw [h.takeMantissa]
  simp only [Option.bind_eq_bind, Option.bind_some, h.exponent?_text]
  rfl

/-- The text has no other characters than digits, signs, points and the letter of the exponent. -/
theorem Valid.mem_text (h : p.Valid) {c : Char} (hc : c ∈ p.text) :
    isAsciiDigit c = true ∨ c ∈ ['-', '+', '.', 'e'] := by
  unfold text at hc
  simp only [List.mem_append] at hc
  rcases hc with ((hc | hc) | hc) | hc
  · unfold sign at hc
    split at hc
    · simp only [List.mem_singleton] at hc
      simp [hc]
    · cases hc
  · exact .inl (h.whole c hc)
  · unfold fractionText at hc
    split at hc
    · cases hc
    · rcases List.mem_cons.mp hc with rfl | hc
      · simp
      · exact .inl (h.fraction c hc)
  · unfold exponentText at hc
    split at hc
    · cases hc
    · next negative digits heq =>
      rcases List.mem_cons.mp hc with rfl | hc
      · simp
      · rcases List.mem_cons.mp hc with rfl | hc
        · cases negative <;> simp
        · exact .inl ((h.exponent _ heq).1 c hc)

end Parts

/-! ### Layouts -/

variable {d : Digits} {code : Fin codes}

/-- Parts of a number's text that is read as a number, and not as an integer. -/
structure Parts.Shows (p : Parts) (s : Bool) (code : Fin codes) : Prop where
  valid : p.Valid
  fractional : p.fraction ≠ [] ∨ p.exponent ≠ none
  minus : p.negative = s
  reads : ofDecimal s p.digits (p.exponentValue - p.fraction.length) = finite s code

theorem Writes.length_pos (h : Writes d code) : 0 < d.digits.length :=
  List.length_pos_iff.mpr h.nonempty

/-- A decimal below one, after a zero and the point. -/
theorem Writes.shows_below (h : Writes d code) (s : Bool) (hexp : d.exponent < 0) :
    Parts.Shows ⟨s, ['0'], List.replicate (d.exponent.natAbs - 1) '0' ++ d.digits, none⟩ s code where
  valid := ⟨asciiDigits_replicate 1, by simp, .inr rfl, (asciiDigits_replicate _).append h.ascii,
    fun _ hx => by cases hx⟩
  fractional := .inl (by simp [h.nonempty])
  minus := rfl
  reads := by
    have hlength := h.length_pos
    have hdigits : Text.digitsValue (['0'] ++ (List.replicate (d.exponent.natAbs - 1) '0' ++ d.digits))
        = Text.digitsValue d.digits := by
      rw [← List.append_assoc, ← List.replicate_one, ← List.replicate_add, digitsValue_zeros_append]
    rw [← h.reads s, Parts.digits, hdigits, List.length_append, List.length_replicate]
    congr 1
    simp only [Parts.exponentValue]
    omega

/-- An integer, with zeros up to the point and one after it. -/
theorem Writes.shows_integer (h : Writes d code) (s : Bool) {zeros : Nat}
    (hexp : d.exponent + 1 = d.digits.length + zeros) :
    Parts.Shows ⟨s, d.digits ++ List.replicate zeros '0', ['0'], none⟩ s code where
  valid := by
    refine ⟨h.ascii.append (asciiDigits_replicate _), by simp [h.nonempty], ?_,
      asciiDigits_replicate 1, fun _ hx => by cases hx⟩
    rcases h.leading with hlead | rfl
    · refine .inl ?_
      rwa [List.head?_append_of_ne_nil _ h.nonempty]
    · have : zeros = 0 := by simpa using hexp.symm
      subst this
      exact .inr rfl
  fractional := .inl (by simp)
  minus := rfl
  reads := by
    have hlength := h.length_pos
    have hdigits : Text.digitsValue (d.digits ++ List.replicate zeros '0' ++ ['0'])
        = Text.digitsValue d.digits * 10 ^ (zeros + 1) := by
      rw [List.append_assoc, ← List.replicate_one, ← List.replicate_add, digitsValue_append_zeros]
    rw [← h.reads s, Parts.digits, hdigits, ofDecimal_mul_pow]
    congr 1
    simp only [Parts.exponentValue, List.length_singleton]
    omega

/-- A decimal with digits on both sides of the point. -/
theorem Writes.shows_split (h : Writes d code) (s : Bool) {whole : Nat} (hpos : 0 < whole)
    (hexp : d.exponent + 1 = whole) (hlength : whole < d.digits.length) :
    Parts.Shows ⟨s, d.digits.take whole, d.digits.drop whole, none⟩ s code where
  valid := by
    refine ⟨fun c hc => h.ascii c (List.mem_of_mem_take hc), ?_, ?_,
      fun c hc => h.ascii c (List.mem_of_mem_drop hc), fun _ hx => by cases hx⟩
    · rw [← List.length_pos_iff, List.length_take]
      omega
    · rcases h.leading with hlead | rfl
      · refine .inl fun c hc => hlead c ?_
        rwa [List.head?_take, if_neg (by omega)] at hc
      · simp only [List.length_singleton] at hlength
        omega
  fractional := .inl (by rw [ne_eq, List.drop_eq_nil_iff]; omega)
  minus := rfl
  reads := by
    rw [← h.reads s, Parts.digits, List.take_append_drop]
    congr 1
    simp only [Parts.exponentValue, List.length_drop]
    omega

/-- One digit before the point, and a power of ten. -/
theorem Writes.shows_scientific (h : Writes d code) (s : Bool) {first : Char} {rest : List Char}
    (hdigits : d.digits = first :: rest) :
    Parts.Shows ⟨s, [first], rest, some (d.exponent < 0,
      Text.padZeros 2 (Nat.toDigits 10 d.exponent.natAbs))⟩ s code where
  valid := by
    have hascii := h.ascii
    rw [hdigits] at hascii
    refine ⟨fun c hc => hascii c ?_, by simp, ?_, fun c hc => hascii c (List.mem_cons_of_mem _ hc),
      fun x hx => ?_⟩
    · rw [List.mem_singleton.mp hc]
      exact List.mem_cons_self
    · by_cases hzero : first = '0'
      · exact .inr (congrArg ([·]) hzero)
      · refine .inl fun c hc => ?_
        obtain rfl := Option.some.inj hc
        exact hzero
    · obtain rfl := Option.some.inj hx
      exact ⟨asciiDigits_padZeros 2 _, by simp [Text.padZeros, Nat.toDigits_ne_nil]⟩
  fractional := .inr (by simp)
  minus := rfl
  reads := by
    rw [← h.reads s, Parts.digits, hdigits]
    congr 1
    simp only [Parts.exponentValue, digitsValue_padZeros, List.length_cons, decide_eq_true_eq]
    split <;> omega

/-- **A decimal is laid out** as a text whose parts stand for it. -/
theorem exists_parts (h : Writes d code) (s : Bool) (limit : Int) :
    ∃ p : Parts, p.Shows s code ∧ p.text = sign s ++ Style.layout ⟨limit, true⟩ d := by
  unfold Style.layout
  dsimp only
  split
  · unfold positional
    split
    · next hexp =>
      refine ⟨_, h.shows_below s hexp, ?_⟩
      simp [Parts.text, Parts.fractionText, Parts.exponentText, h.nonempty]
    · next hexp =>
      obtain ⟨whole, hwhole⟩ : ∃ whole, whole = d.exponent.toNat + 1 := ⟨_, rfl⟩
      dsimp only
      rw [← hwhole]
      rcases Nat.lt_or_ge whole d.digits.length with hlt | hge
      · refine ⟨_, h.shows_split s (by omega) (by omega) hlt, ?_⟩
        have hdrop : d.digits.drop whole ≠ [] := by rw [ne_eq, List.drop_eq_nil_iff]; omega
        have hpad : whole - (d.digits.take whole).length = 0 := by rw [List.length_take]; omega
        rw [hpad]
        simp [Parts.text, Parts.fractionText, Parts.exponentText, hdrop]
      · have hzeros : d.exponent + 1 = d.digits.length + (whole - d.digits.length : Nat) := by omega
        refine ⟨_, h.shows_integer s hzeros, ?_⟩
        have hdrop : d.digits.drop whole = [] := List.drop_eq_nil_iff.mpr hge
        rw [List.take_of_length_le hge, hdrop]
        simp [Parts.text, Parts.fractionText, Parts.exponentText]
  · obtain ⟨first, rest, hdigits⟩ := List.exists_cons_of_ne_nil h.nonempty
    refine ⟨_, h.shows_scientific s hdigits, ?_⟩
    unfold scientific Parts.text Parts.fractionText Parts.exponentText
    dsimp only
    rw [hdigits]
    cases rest <;> simp

/-- The digits of a number with the fewest of them. -/
theorem writes_digits (code : Fin codes) :
    Writes (if code.val = 0 then ⟨['0'], 0⟩ else shortest code) code := by
  split
  · next hzero =>
    refine ⟨asciiDigits_replicate 1, by simp, .inr rfl, fun s => ?_⟩
    have hcode : code = ⟨0, by decide⟩ := Fin.ext hzero
    rw [hcode]
    rfl
  · next hcode => exact writes_shortest hcode

/-- **The shortest text** of a finite number shows it. -/
theorem exists_parts_write (s : Bool) (code : Fin codes) : ∃ p : Parts, p.Shows s code ∧
    p.text = (shortestText (finite s code)).toList := by
  obtain ⟨p, hshows, htext⟩ := exists_parts (writes_digits code) s 16
  refine ⟨p, hshows, htext.trans ?_⟩
  rw [shortestText, String.toList_ofList]
  rfl

end Decimal

end Spreadsheet
