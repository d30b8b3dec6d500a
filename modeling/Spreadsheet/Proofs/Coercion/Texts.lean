import Spreadsheet.Coercion
import Spreadsheet.Proofs.Binary64.Nearest
import Spreadsheet.Proofs.Decimal.Spellings
import Mathlib.Data.Nat.Digits.Defs

/-! # The numbers of texts

Two kinds of texts are numbers: decimals (`Decimal.Spelling`) and numerals of base 16, 8 or 2 behind
a zero and the letter of the base (`Based`). No text is both (`read?_eq_none_of_base`).

* `prefixed?_eq_some_iff`: the texts that are read as numerals of such a base. The zero and the
  letter may stand in front of one once more (`Based.Spells`).
* `toNumber_text`: the number of every text, the nearest one of the format.
* `not_zero_of_repeated`: with the zero and the letter twice a text is neither a decimal nor such a
  numeral, and still its number is not 0. -/

namespace Spreadsheet

open Binary64

/-! ### Digits of a base -/

/-- The value of a character as a digit; 0 if it is none. -/
def digitOf (c : Char) : Nat :=
  (baseDigit? c).getD 0

/-- The character is a digit of the base. -/
def IsBaseDigit (base : Nat) (c : Char) : Prop :=
  ∃ d < base, baseDigit? c = some d

variable {base n : Nat} {c : Char} {cs t : List Char}

theorem foldlM_digits (acc : Nat) : cs.foldlM (fun n c => (baseDigit? c).bind fun d =>
    if d < base then some (n * base + d) else none) acc = some n ↔
      (∀ c ∈ cs, IsBaseDigit base c) ∧ n = cs.foldl (fun n c => n * base + digitOf c) acc := by
  induction cs generalizing acc with
  | nil => simp [eq_comm]
  | cons c cs ih =>
    rw [List.foldlM_cons, List.foldl_cons, List.forall_mem_cons]
    constructor
    · intro h
      obtain ⟨m, hm, h⟩ := Option.bind_eq_some_iff.mp h
      obtain ⟨d, hd, hm⟩ := Option.bind_eq_some_iff.mp hm
      split_ifs at hm with hlt
      obtain rfl := Option.some.inj hm
      obtain ⟨hdigits, hn⟩ := (ih _).mp h
      refine ⟨⟨⟨d, hlt, hd⟩, hdigits⟩, ?_⟩
      rw [digitOf, hd]
      exact hn
    · rintro ⟨⟨⟨d, hlt, hd⟩, hdigits⟩, hn⟩
      have hfirst : digitOf c = d := by rw [digitOf, hd]; rfl
      rw [hd, Option.bind_some, if_pos hlt]
      exact (ih _).mpr ⟨hdigits, hfirst ▸ hn⟩

theorem foldl_digits (cs : List Char) : cs.foldl (fun n c => n * base + digitOf c) 0
    = Nat.ofDigits base (cs.reverse.map digitOf) := by
  rw [Nat.ofDigits_eq_foldr, List.foldr_map, List.foldr_reverse]
  congr 1
  funext n c
  simp only [Nat.cast_id]
  ring

/-- **Digits are read as a number** if each of them is a digit of the base. -/
theorem baseDigits?_eq_some_iff : baseDigits? base cs = some n ↔
    (∀ c ∈ cs, IsBaseDigit base c) ∧ n = Nat.ofDigits base (cs.reverse.map digitOf) := by
  rw [← foldl_digits]
  exact foldlM_digits 0

/-! ### Numerals of a base -/

/-- The letters that name bases. -/
def baseLetters : List (Char × Nat) :=
  [('x', 16), ('X', 16), ('o', 8), ('O', 8), ('b', 2), ('B', 2)]

theorem baseOf?_eq_some_iff : baseOf? c = some base ↔ (c, base) ∈ baseLetters := by
  unfold baseOf? baseLetters
  constructor
  · intro h
    split_ifs at h with hx ho hb <;> obtain rfl := Option.some.inj h
    · rcases hx with rfl | rfl <;> simp
    · rcases ho with rfl | rfl <;> simp
    · rcases hb with rfl | rfl <;> simp
  · intro h
    simp only [List.mem_cons, Prod.mk.injEq, List.not_mem_nil, or_false] at h
    rcases h with ⟨rfl, rfl⟩ | ⟨rfl, rfl⟩ | ⟨rfl, rfl⟩ | ⟨rfl, rfl⟩ | ⟨rfl, rfl⟩ | ⟨rfl, rfl⟩ <;> rfl

/-- The letter of a base is no digit of it, and no part of a decimal. -/
theorem baseLetters_facts : ∀ x ∈ baseLetters, (∀ d < x.2, baseDigit? x.1 ≠ some d) ∧
    Decimal.isAsciiDigit x.1 = false ∧ x.1 ≠ '.' ∧ x.1 ≠ 'e' ∧ x.1 ≠ 'E' := by
  decide

/-- A numeral of base 16, 8 or 2: a zero, the letter of the base, and digits of the base. -/
structure Based where
  letter : Char
  base : Nat
  digits : List Char
  named : (letter, base) ∈ baseLetters
  nonempty : digits ≠ []
  valid : ∀ c ∈ digits, IsBaseDigit base c

namespace Based

def text (b : Based) : List Char :=
  '0' :: b.letter :: b.digits

def value (b : Based) : Nat :=
  Nat.ofDigits b.base (b.digits.reverse.map digitOf)

/-- The text is the numeral, or the numeral with a zero and a letter of its base before it. -/
def Spells (b : Based) (t : List Char) : Prop :=
  b.text = t ∨ ∃ c, (c, b.base) ∈ baseLetters ∧ '0' :: c :: b.text = t

/-- Its digits do not start with a zero and a letter of its base. -/
theorem digits_ne (b : Based) {rest : List Char} (h : b.digits = '0' :: c :: rest) :
    (c, b.base) ∉ baseLetters := fun hc => by
  obtain ⟨d, hd, hdigit⟩ := b.valid c (by simp [h])
  exact (baseLetters_facts _ hc).1 d hd hdigit

theorem baseDigits?_digits (b : Based) : baseDigits? b.base b.digits = some b.value :=
  baseDigits?_eq_some_iff.mpr ⟨b.valid, rfl⟩

theorem isEmpty_digits (b : Based) : b.digits.isEmpty = false := by
  simpa using b.nonempty

theorem baseNumber?_digits (b : Based) : baseNumber? b.base b.digits = some b.value := by
  unfold baseNumber?
  dsimp only
  split
  · next c rest hdigits =>
    rw [if_neg (fun hc => b.digits_ne hdigits (baseOf?_eq_some_iff.mp hc)), b.isEmpty_digits,
      b.baseDigits?_digits]
    rfl
  · rw [b.isEmpty_digits, b.baseDigits?_digits]
    rfl

theorem baseNumber?_text (b : Based) : baseNumber? b.base b.text = some b.value := by
  have hrest : (if baseOf? b.letter = some b.base then b.digits else b.text) = b.digits :=
    if_pos (baseOf?_eq_some_iff.mpr b.named)
  show (if (if baseOf? b.letter = some b.base then b.digits else b.text).isEmpty then none
    else baseDigits? b.base (if baseOf? b.letter = some b.base then b.digits else b.text)) = _
  rw [hrest, b.isEmpty_digits, b.baseDigits?_digits]
  rfl

end Based

/-- What is read after a zero and a letter is a numeral's digits, or a numeral of the same base. -/
theorem exists_based (hc : (c, base) ∈ baseLetters) (h : baseNumber? base cs = some n) :
    ∃ b : Based, b.base = base ∧ n = b.value ∧ (cs = b.digits ∧ b.letter = c ∨ cs = b.text) := by
  unfold baseNumber? at h
  dsimp only at h
  split_ifs at h with hempty
  obtain ⟨hvalid, rfl⟩ := baseDigits?_eq_some_iff.mp h
  rw [List.isEmpty_iff] at hempty
  revert hempty hvalid
  split
  · next d rest =>
    split_ifs with hd
    · intro hempty hvalid
      exact ⟨⟨d, base, rest, baseOf?_eq_some_iff.mp hd, hempty, hvalid⟩, rfl, rfl, .inr rfl⟩
    · intro _ hvalid
      exact ⟨⟨c, base, _, hc, List.cons_ne_nil _ _, hvalid⟩, rfl, rfl, .inl ⟨rfl, rfl⟩⟩
  · intro hempty hvalid
    exact ⟨⟨c, base, cs, hc, hempty, hvalid⟩, rfl, rfl, .inl ⟨rfl, rfl⟩⟩

/-- **The texts that are read as numerals of a base.** -/
theorem prefixed?_eq_some_iff : prefixed? t = some n ↔ ∃ b : Based, b.Spells t ∧ n = b.value := by
  constructor
  · intro h
    unfold prefixed? at h
    split at h
    · next c rest =>
      obtain ⟨base, hbase, h⟩ := Option.bind_eq_some_iff.mp h
      have hc := baseOf?_eq_some_iff.mp hbase
      obtain ⟨b, rfl, rfl, ⟨rfl, rfl⟩ | rfl⟩ := exists_based hc h
      · exact ⟨b, .inl rfl, rfl⟩
      · exact ⟨b, .inr ⟨c, hc, rfl⟩, rfl⟩
    · cases h
  · rintro ⟨b, rfl | ⟨c, hc, rfl⟩, rfl⟩
    · show (baseOf? b.letter).bind (fun base => baseNumber? base b.digits) = _
      rw [baseOf?_eq_some_iff.mpr b.named]
      exact b.baseNumber?_digits
    · show (baseOf? c).bind (fun base => baseNumber? base b.text) = _
      rw [baseOf?_eq_some_iff.mpr hc]
      exact b.baseNumber?_text

/-! ### Decimals and numerals -/

/-- A zero and the letter of a base do not begin a decimal. -/
theorem read?_eq_none_of_base (hc : (c, base) ∈ baseLetters) (rest : List Char) :
    Decimal.read? ('0' :: c :: rest) = none := by
  obtain ⟨-, hdigit, hpoint, hlower, hupper⟩ := baseLetters_facts _ hc
  have hzero : Decimal.isAsciiDigit '0' = true := by decide
  have hmantissa : Decimal.takeMantissa ('0' :: c :: rest) = some (['0'], [], c :: rest) := by
    unfold Decimal.takeMantissa
    simp only [List.takeWhile_cons, List.dropWhile_cons, hzero, hdigit, if_true]
    split
    · next heq => exact absurd (List.cons.inj heq).1 hpoint
    · rfl
  have hexponent : Decimal.exponent? (c :: rest) = none := by
    unfold Decimal.exponent?
    simp [hlower, hupper]
  unfold Decimal.read?
  show (Decimal.takeMantissa ('0' :: c :: rest)).bind _ = none
  rw [hmantissa, Option.bind_some]
  show (Decimal.exponent? (c :: rest)).bind _ = none
  rw [hexponent]
  rfl

theorem Based.Spells.read?_eq_none {b : Based} (h : b.Spells t) : Decimal.read? t = none := by
  rcases h with rfl | ⟨c, hc, rfl⟩
  · exact read?_eq_none_of_base b.named _
  · exact read?_eq_none_of_base hc _

theorem Based.not_spells (h : prefixed? t = none) (b : Based) : ¬ b.Spells t := fun hb => by
  rw [prefixed?_eq_some_iff.mpr ⟨b, hb, rfl⟩] at h
  cases h

/-! ### The number of a text -/

theorem textNumber_spelling (p : Decimal.Spelling) :
    (∃ code, Nearest p.magnitude code ∧
      textNumber p.text = .ok (.float (.finite p.sign.isMinus code))) ∨
    limit ≤ p.magnitude ∧ textNumber p.text = .ok (.int 0) := by
  unfold textNumber
  rw [p.read?_text]
  rcases roundsTo_iff.mp (roundsTo_ofDecimal p.sign.isMinus p.digits p.place)
    with ⟨code, h, hx⟩ | ⟨h, hx⟩
  · exact .inl ⟨code, h, by rw [hx]; rfl⟩
  · exact .inr ⟨h, by rw [hx]; rfl⟩

theorem textNumber_based {b : Based} (h : b.Spells t) :
    (∃ code, Nearest b.value code ∧ textNumber t = .ok (.float (.finite false code))) ∨
    limit ≤ b.value ∧ textNumber t = .error (.overflow .integer) := by
  have hread : prefixed? t = some b.value := prefixed?_eq_some_iff.mpr ⟨b, h, rfl⟩
  have hsign : decide ((b.value : Int) < 0) = false := by simp
  unfold textNumber
  rw [h.read?_eq_none]
  dsimp only
  rw [hread]
  dsimp only
  have hcases := Number.ofIntNearest_cases b.value
  rw [Int.cast_natCast, Nat.abs_cast, hsign] at hcases
  rcases hcases with ⟨code, hnear, hint⟩ | ⟨hlimit, hint⟩
  · exact .inl ⟨code, hnear, by rw [hint]; rfl⟩
  · exact .inr ⟨hlimit, by rw [hint]; rfl⟩

theorem textNumber_other (hspelling : ∀ p : Decimal.Spelling, p.text ≠ t)
    (hbased : ∀ b : Based, ¬ b.Spells t) : textNumber t = .ok (.int 0) := by
  unfold textNumber
  cases hread : Decimal.read? t with
  | some x =>
    obtain ⟨p, hp⟩ := Decimal.exists_spelling hread
    exact absurd hp (hspelling p)
  | none =>
    cases hprefixed : prefixed? t with
    | some n =>
      obtain ⟨b, hb, -⟩ := prefixed?_eq_some_iff.mp hprefixed
      exact absurd hb (hbased b)
    | none => rfl

/-- **The number of a text.** Without the blanks at its ends the text is a decimal, and has the
nearest number of the format, or 0 if there is none; or it is a numeral of base 16, 8 or 2, maybe
with the zero and the letter of the base once more in front of it, and has the nearest number of the
format, or none if that is too great; or it has the number 0. -/
theorem toNumber_text (s : String) :
    (∀ p : Decimal.Spelling, p.text = Text.trimList s.toList →
      (p.magnitude < limit → ∃ code, Nearest p.magnitude code ∧
        (Scalar.text s).toNumber = .ok (.float (.finite p.sign.isMinus code))) ∧
      (limit ≤ p.magnitude → (Scalar.text s).toNumber = .ok (.int 0))) ∧
    (∀ b : Based, b.Spells (Text.trimList s.toList) →
      (b.value < limit → ∃ code, Nearest b.value code ∧
        (Scalar.text s).toNumber = .ok (.float (.finite false code))) ∧
      (limit ≤ b.value → (Scalar.text s).toNumber = .error (.overflow .integer))) ∧
    ((∀ p : Decimal.Spelling, p.text ≠ Text.trimList s.toList) →
      (∀ b : Based, ¬ b.Spells (Text.trimList s.toList)) →
      (Scalar.text s).toNumber = .ok (.int 0)) := by
  have hnumber : (Scalar.text s).toNumber = textNumber (Text.trimList s.toList) := rfl
  rw [hnumber]
  refine ⟨fun p hp => ?_, fun b hb => ?_, textNumber_other⟩
  · rw [← hp]
    rcases textNumber_spelling p with hfinite | ⟨hlimit, hzero⟩
    · obtain ⟨code, hnear, -⟩ := id hfinite
      exact ⟨fun _ => hfinite, fun hlimit => absurd hnear.lt_limit (not_lt.mpr hlimit)⟩
    · exact ⟨fun hlt => absurd hlt (not_lt.mpr hlimit), fun _ => hzero⟩
  · rcases textNumber_based hb with hfinite | ⟨hlimit, herror⟩
    · obtain ⟨code, hnear, -⟩ := id hfinite
      exact ⟨fun _ => hfinite, fun hlimit => absurd hnear.lt_limit (not_lt.mpr hlimit)⟩
    · exact ⟨fun hlt => absurd hlt (not_lt.mpr hlimit), fun _ => herror⟩

/-- Minus fifteen hundred, as a decimal. -/
def hundreds : Decimal.Spelling where
  sign := .minus
  whole := ['1']
  fraction := some ['5']
  exponent := some ⟨'E', .plus, ['3'], .inr rfl, List.forall_mem_singleton.mpr rfl, by decide⟩
  whole_ascii := List.forall_mem_singleton.mpr rfl
  fraction_ascii := by
    rintro ds hds
    obtain rfl := Option.some.inj hds
    exact List.forall_mem_singleton.mpr rfl
  some_digit := .inl (by decide)

theorem magnitude_hundreds : hundreds.magnitude = 1500 := by
  have hdigits : hundreds.digits = 15 := rfl
  have hplace : hundreds.place = (2 : Nat) := rfl
  rw [Decimal.Spelling.magnitude, hdigits, hplace, decimal, zpow_natCast]
  norm_num

/-- Sixteen in base 16. -/
def sixteen : Based where
  letter := 'X'
  base := 16
  digits := ['1', '0']
  named := by decide
  nonempty := by decide
  valid := by
    intro c hc
    simp only [List.mem_cons, List.not_mem_nil, or_false] at hc
    rcases hc with rfl | rfl
    · exact ⟨1, by decide, rfl⟩
    · exact ⟨0, by decide, rfl⟩

theorem sixteen_lt_limit : (sixteen.value : ℚ) < limit := by
  have hvalue : sixteen.value = 2 ^ 4 := rfl
  rw [hvalue, Nat.cast_pow]
  exact two_pow_lt_limit (by omega)

theorem toNumber_text_spelled : hundreds.text = Text.trimList " -1.5E+3 ".toList ∧
    hundreds.magnitude < limit ∧
    (∃ code, Nearest hundreds.magnitude code ∧
      (Scalar.text " -1.5E+3 ").toNumber = .ok (.float (.finite true code))) ∧
    sixteen.Spells (Text.trimList "0X10".toList) ∧ sixteen.value < limit ∧
    (∃ code, Nearest sixteen.value code ∧
      (Scalar.text "0X10").toNumber = .ok (.float (.finite false code))) ∧
    (∀ p : Decimal.Spelling, p.text ≠ Text.trimList "1_000".toList) ∧
    (∀ b : Based, ¬ b.Spells (Text.trimList "1_000".toList)) ∧
    (Scalar.text "1_000").toNumber = .ok (.int 0) := by
  have hdecimal : hundreds.text = Text.trimList " -1.5E+3 ".toList := by decide +kernel
  have hbased : sixteen.Spells (Text.trimList "0X10".toList) := .inl (by decide +kernel)
  have hless : hundreds.magnitude < limit := by
    rw [magnitude_hundreds]
    exact lt_trans (by norm_num) (two_pow_lt_limit (show 11 ≤ 1023 by omega))
  have hspelling : ∀ p : Decimal.Spelling, p.text ≠ Text.trimList "1_000".toList :=
    Decimal.Spelling.text_ne (by decide +kernel)
  have hnone : ∀ b : Based, ¬ b.Spells (Text.trimList "1_000".toList) :=
    Based.not_spells (by decide +kernel)
  exact ⟨hdecimal, hless, ((toNumber_text _).1 _ hdecimal).1 hless, hbased, sixteen_lt_limit,
    ((toNumber_text _).2.1 _ hbased).1 sixteen_lt_limit, hspelling, hnone,
    (toNumber_text _).2.2 hspelling hnone⟩

/-- **A text with the zero and the letter of a base twice** is no decimal and no numeral of a base,
but its number is not 0. -/
theorem not_zero_of_repeated : ¬ ∀ (s : String) (n : Number), (Scalar.text s).toNumber = .ok n →
    (∀ p : Decimal.Spelling, p.text ≠ Text.trimList s.toList) →
    (∀ b : Based, b.text ≠ Text.trimList s.toList) → n = .int 0 := by
  intro h
  have ht : '0' :: 'x' :: ['0', 'X', '1', '0'] = Text.trimList "0x0X10".toList := by decide +kernel
  have hspells : sixteen.Spells (Text.trimList "0x0X10".toList) := .inr ⟨'x', by decide, ht⟩
  rcases textNumber_based hspells with ⟨code, -, hnumber⟩ | ⟨hlimit, -⟩
  · -- Its number is a floating point number, so it is not the integer 0.
    have hzero := h "0x0X10" _ hnumber (fun p => ?_) (fun b hb => ?_)
    · cases hzero
    · exact Decimal.Spelling.text_ne hspells.read?_eq_none p
    · rw [← ht] at hb
      have hletter : b.letter = 'x' := (List.cons.inj (List.cons.inj hb).2).1
      have hdigits : b.digits = '0' :: 'X' :: ['1', '0'] :=
        (List.cons.inj (List.cons.inj hb).2).2
      have hbase : b.base = 16 := by simpa [hletter, baseLetters] using b.named
      exact b.digits_ne hdigits (by rw [hbase]; decide)
  · exact absurd sixteen_lt_limit (not_lt.mpr hlimit)

end Spreadsheet
