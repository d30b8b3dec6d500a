import Spreadsheet.Proofs.Decimal.Layout

/-! # Decimal texts

A decimal text has a sign or none, digits with at most one point and at least one digit among them,
and an exponent or none (`Spelling`). Each of them is read as what it stands for
(`Spelling.read?_text`), and no other text is read as a decimal (`exists_spelling`). -/

namespace Spreadsheet.Decimal

open Binary64

variable {cs : List Char}

/-! ### Spellings -/

/-- What stands in front of digits. -/
inductive Sign where
  | none | plus | minus
  deriving DecidableEq, Repr

namespace Sign

def text : Sign → List Char
  | none => []
  | plus => ['+']
  | minus => ['-']

def isMinus : Sign → Bool
  | minus => true
  | _ => false

end Sign

/-- A power of ten: the letter, a sign or none, and digits. -/
structure Exponent where
  letter : Char
  sign : Sign
  digits : List Char
  letter_eq : letter = 'e' ∨ letter = 'E'
  ascii : AsciiDigits digits
  nonempty : digits ≠ []

namespace Exponent

def text (e : Exponent) : List Char :=
  e.letter :: (e.sign.text ++ e.digits)

def value (e : Exponent) : Int :=
  if e.sign.isMinus then -Text.digitsValue e.digits else Text.digitsValue e.digits

end Exponent

/-- A decimal text. The digits after the point are there if the point is. -/
structure Spelling where
  sign : Sign
  whole : List Char
  fraction : Option (List Char)
  exponent : Option Exponent
  whole_ascii : AsciiDigits whole
  fraction_ascii : ∀ ds ∈ fraction, AsciiDigits ds
  some_digit : whole ≠ [] ∨ ∃ ds ∈ fraction, ds ≠ []

namespace Spelling

/-- The point and the digits after it. -/
def fractionText (p : Spelling) : List Char :=
  match p.fraction with
  | none => []
  | some ds => '.' :: ds

def exponentText (p : Spelling) : List Char :=
  match p.exponent with
  | none => []
  | some e => e.text

def text (p : Spelling) : List Char :=
  p.sign.text ++ (p.whole ++ (p.fractionText ++ p.exponentText))

/-- The digits on both sides of the point as one number. -/
def digits (p : Spelling) : Nat :=
  Text.digitsValue (p.whole ++ p.fraction.getD [])

/-- The power of ten that the last of the digits counts. -/
def place (p : Spelling) : Int :=
  (match p.exponent with | none => 0 | some e => e.value) - (p.fraction.getD []).length

/-- The magnitude that the text stands for. -/
def magnitude (p : Spelling) : ℚ :=
  decimal p.digits p.place

end Spelling

/-! ### What is read -/

theorem exists_takeSign (cs : List Char) :
    ∃ s : Sign, cs = s.text ++ (takeSign cs).2 ∧ (takeSign cs).1 = s.isMinus := by
  unfold takeSign
  split
  · exact ⟨.minus, rfl, rfl⟩
  · exact ⟨.plus, rfl, rfl⟩
  · exact ⟨.none, rfl, rfl⟩

theorem takeSign_text {s : Sign} (hplus : ∀ c ∈ cs.head?, c ≠ '+')
    (hminus : ∀ c ∈ cs.head?, c ≠ '-') : takeSign (s.text ++ cs) = (s.isMinus, cs) := by
  cases s with
  | plus => rfl
  | minus => rfl
  | none =>
    show takeSign cs = (false, cs)
    unfold takeSign
    split
    · exact absurd rfl (hminus _ rfl)
    · exact absurd rfl (hplus _ rfl)
    · rfl

theorem head_ne_of_digits {ds rest : List Char} (hds : AsciiDigits ds) {c : Char}
    (hc : isAsciiDigit c = false) (hrest : ∀ d ∈ rest.head?, d ≠ c) :
    ∀ d ∈ (ds ++ rest).head?, d ≠ c := by
  cases ds with
  | nil => exact hrest
  | cons d ds =>
    rintro e he rfl
    obtain rfl := Option.some.inj he
    have := hds d List.mem_cons_self
    simp [hc] at this

/-- **A text is read as an exponent** if it is one, or empty. -/
theorem exponent?_eq_some_iff {n : Int} : exponent? cs = some n ↔
    cs = [] ∧ n = 0 ∨ ∃ e : Exponent, cs = e.text ∧ n = e.value := by
  constructor
  · intro h
    cases cs with
    | nil => exact .inl ⟨rfl, (Option.some.inj h).symm⟩
    | cons c rest =>
      obtain ⟨s, htext, hminus⟩ := exists_takeSign rest
      unfold exponent? at h
      dsimp only at h
      split at h
      · next hvalid =>
        obtain ⟨hletter, hne, hascii⟩ := hvalid
        refine .inr ⟨⟨c, s, _, hletter, List.all_eq_true.mp hascii, hne⟩, ?_, ?_⟩
        · rw [Exponent.text, ← htext]
        · rw [Exponent.value, ← hminus]
          exact (Option.some.inj h).symm
      · cases h
  · rintro (⟨rfl, rfl⟩ | ⟨e, rfl, rfl⟩)
    · rfl
    · have hsign : takeSign (e.sign.text ++ e.digits) = (e.sign.isMinus, e.digits) := by
        have hhead (c : Char) (hc : isAsciiDigit c = false) : ∀ d ∈ e.digits.head?, d ≠ c := by
          have hnil : ∀ d ∈ ([] : List Char).head?, d ≠ c := by simp
          simpa using head_ne_of_digits e.ascii hc hnil
        exact takeSign_text (hhead '+' (by decide)) (hhead '-' (by decide))
      unfold exponent? Exponent.text
      dsimp only
      rw [hsign]
      exact if_pos ⟨e.letter_eq, e.nonempty, e.ascii.all⟩

/-- **A text begins with digits around a point** as they are taken from it. -/
theorem takeMantissa_eq_some {ds fs rest : List Char} (h : takeMantissa cs = some (ds, fs, rest)) :
    ∃ fraction : Option (List Char), fs = fraction.getD [] ∧ AsciiDigits ds ∧
      (∀ x ∈ fraction, AsciiDigits x) ∧ (ds ≠ [] ∨ ∃ x ∈ fraction, x ≠ []) ∧
      cs = ds ++ ((match fraction with | none => [] | some x => '.' :: x) ++ rest) := by
  have hwhole : AsciiDigits (cs.takeWhile isAsciiDigit) := fun c hc => List.mem_takeWhile_imp hc
  have hcs := (List.takeWhile_append_dropWhile (p := isAsciiDigit) (l := cs)).symm
  unfold takeMantissa at h
  dsimp only at h
  split at h
  · next after hafter =>
    split_ifs at h with hempty
    obtain ⟨rfl, rfl, rfl⟩ : _ ∧ _ ∧ _ := by simpa using h
    refine ⟨some (after.takeWhile isAsciiDigit), rfl, hwhole, ?_, ?_, ?_⟩
    · rintro x hx
      obtain rfl := Option.some.inj hx
      exact fun c hc => List.mem_takeWhile_imp hc
    · by_cases hnil : cs.takeWhile isAsciiDigit = []
      · refine .inr ⟨_, rfl, fun hfraction => hempty ?_⟩
        rw [hnil, hfraction]
        rfl
      · exact .inl hnil
    · rw [List.cons_append, List.takeWhile_append_dropWhile, ← hafter]
      exact hcs
  · next rest' hrest =>
    split_ifs at h with hempty
    obtain ⟨rfl, rfl, rfl⟩ : _ ∧ _ ∧ _ := by simpa using h
    refine ⟨none, rfl, hwhole, fun x hx => (by cases hx), .inl ?_, hcs⟩
    intro hnil
    rw [hnil] at hempty
    exact hempty rfl

namespace Spelling

variable (p : Spelling)

theorem exponentText_head : ∀ c ∈ p.exponentText.head?, c = 'e' ∨ c = 'E' := by
  unfold exponentText
  intro c hc
  split at hc
  · cases hc
  · next e _ =>
    obtain rfl := Option.some.inj hc
    exact e.letter_eq

theorem noDigit_exponentText : NoDigit p.exponentText := fun c hc => by
  rcases p.exponentText_head c hc with rfl | rfl <;> decide

theorem takeMantissa_text : takeMantissa (p.whole ++ (p.fractionText ++ p.exponentText))
    = some (p.whole, p.fraction.getD [], p.exponentText) := by
  have hexp := p.noDigit_exponentText
  have hsome := p.some_digit
  unfold fractionText
  cases hfraction : p.fraction with
  | none =>
    rw [hfraction] at hsome
    have hwhole : p.whole ≠ [] := by simpa using hsome
    unfold takeMantissa
    dsimp only
    rw [List.nil_append, takeWhile_digits p.whole_ascii hexp, dropWhile_digits p.whole_ascii hexp]
    split
    · next rest heq =>
      have := p.exponentText_head '.' (by rw [heq]; rfl)
      simp at this
    · rw [if_neg (by simpa using hwhole)]
      rfl
  | some ds =>
    have hds := p.fraction_ascii ds hfraction
    have hpoint : NoDigit ('.' :: (ds ++ p.exponentText)) := noDigit_cons (by decide) _
    have hdigit : (p.whole.isEmpty && ds.isEmpty) = false := by
      rw [hfraction] at hsome
      simpa [or_iff_not_imp_left] using hsome
    unfold takeMantissa
    dsimp only
    rw [List.cons_append, takeWhile_digits p.whole_ascii hpoint,
      dropWhile_digits p.whole_ascii hpoint]
    split
    · next rest heq =>
      obtain ⟨-, rfl⟩ := List.cons.inj heq
      rw [takeWhile_digits hds hexp, dropWhile_digits hds hexp, hdigit]
      rfl
    · next hother => exact absurd rfl (hother _)

theorem exponent?_text : exponent? p.exponentText =
    some (match p.exponent with | none => 0 | some e => e.value) := by
  unfold exponentText
  split
  · rfl
  · next e _ => exact exponent?_eq_some_iff.mpr (.inr ⟨e, rfl, rfl⟩)

/-- No sign stands after the sign. -/
theorem head_ne {c : Char} (hc : isAsciiDigit c = false) (hpoint : c ≠ '.') (hlower : c ≠ 'e')
    (hupper : c ≠ 'E') : ∀ d ∈ (p.whole ++ (p.fractionText ++ p.exponentText)).head?, d ≠ c := by
  refine head_ne_of_digits p.whole_ascii hc ?_
  unfold fractionText
  split
  · rintro d hd rfl
    exact (p.exponentText_head d hd).elim hlower hupper
  · rintro d hd rfl
    exact hpoint (Option.some.inj hd).symm

theorem takeSign_spelling : takeSign p.text
    = (p.sign.isMinus, p.whole ++ (p.fractionText ++ p.exponentText)) :=
  takeSign_text (p.head_ne (by decide) (by decide) (by decide) (by decide))
    (p.head_ne (by decide) (by decide) (by decide) (by decide))

/-- A text is a spelling of one magnitude only. -/
theorem magnitude_eq_of_text {p p' : Spelling} (h : p.text = p'.text) :
    p.magnitude = p'.magnitude := by
  have hsign := p.takeSign_spelling
  rw [h, p'.takeSign_spelling] at hsign
  have hmantissa := p.takeMantissa_text
  rw [← (Prod.mk.inj hsign).2, p'.takeMantissa_text, Option.some.injEq, Prod.mk.injEq,
    Prod.mk.injEq] at hmantissa
  obtain ⟨hwhole, hfraction, hexponent⟩ := hmantissa
  have hvalue := p.exponent?_text
  rw [← hexponent, p'.exponent?_text, Option.some.injEq] at hvalue
  rw [magnitude, magnitude, digits, digits, place, place, hwhole, hfraction, hvalue]

/-- **The text is read** as what it stands for. -/
theorem read?_text : read? p.text = some (.ofDecimal p.sign.isMinus p.digits p.place) := by
  unfold read?
  rw [p.takeSign_spelling]
  dsimp only
  rw [p.takeMantissa_text]
  simp only [Option.bind_eq_bind, Option.bind_some, p.exponent?_text]
  rfl

theorem text_ne (h : read? cs = none) (p : Spelling) : p.text ≠ cs := by
  rintro rfl
  rw [p.read?_text] at h
  cases h

end Spelling

/-- **The texts that are read as decimals** are the spellings. -/
theorem exists_spelling {x : Binary64} (h : read? cs = some x) : ∃ p : Spelling, p.text = cs := by
  obtain ⟨s, hsign, -⟩ := exists_takeSign cs
  unfold read? at h
  dsimp only at h
  obtain ⟨⟨ds, fs, rest⟩, hmantissa, h⟩ := Option.bind_eq_some_iff.mp h
  obtain ⟨n, hexponent, -⟩ := Option.bind_eq_some_iff.mp h
  obtain ⟨fraction, -, hwhole, hfraction, hsome, htext⟩ := takeMantissa_eq_some hmantissa
  rcases exponent?_eq_some_iff.mp hexponent with ⟨rfl, -⟩ | ⟨e, rfl, -⟩
  · refine ⟨⟨s, ds, fraction, none, hwhole, hfraction, hsome⟩, ?_⟩
    rw [hsign, htext]
    rfl
  · refine ⟨⟨s, ds, fraction, some e, hwhole, hfraction, hsome⟩, ?_⟩
    rw [hsign, htext]
    rfl

end Spreadsheet.Decimal
