import Spreadsheet.Decimal.Reading
import Spreadsheet.Range
import Mathlib.Data.List.TakeWhile
import Mathlib.Data.String.Basic

/-! # Plain labels

A label in upper-case ASCII letters and digits is kept as it is (`Plain.normalize`). The labels of
positions are plain (`plain_label`), hence those of ranges. A range that cannot be read is malformed
or has a row number of too many digits (`labels_fault`); with plain corners and short row numbers it
is malformed (`labels_of_plain`). -/

namespace Spreadsheet.Label

/-- Spelled in upper-case ASCII letters and digits. -/
def Plain (s : String) : Prop :=
  ∀ c ∈ s.toList, c.isUpper = true ∨ c.isDigit = true

/-- What follows the letters of a label. -/
def rowDigits (s : String) : List Char :=
  s.toList.dropWhile isLetter

theorem isUpper_iff {c : Char} : c.isUpper = true ↔ 65 ≤ c.toNat ∧ c.toNat ≤ 90 := by
  show decide (65 ≤ c.val ∧ c.val ≤ 90) = true ↔ _
  simp [UInt32.le_iff_toNat_le]

theorem isDigit_iff {c : Char} : c.isDigit = true ↔ 48 ≤ c.toNat ∧ c.toNat ≤ 57 := by
  simp [Char.isDigit, UInt32.le_iff_toNat_le]

theorem isUpper_toUpper {c : Char} (h : isLetter c = true) : c.toUpper.isUpper = true := by
  simp only [isLetter, Bool.or_eq_true, Bool.and_eq_true, decide_eq_true_eq] at h
  rw [isUpper_iff]
  unfold Char.toUpper
  split
  · next hc =>
    have hle : 97 ≤ c.val.toNat ∧ c.val.toNat ≤ 122 := by
      simpa [UInt32.le_iff_toNat_le] using hc
    have hval : (c.val + ('A'.val - 'a'.val)).toNat = c.val.toNat - 32 := by
      rw [UInt32.toNat_add]
      simp
      omega
    show 65 ≤ (c.val + ('A'.val - 'a'.val)).toNat ∧ (c.val + ('A'.val - 'a'.val)).toNat ≤ 90
    omega
  · next hc =>
    have : ¬ (97 ≤ c.toNat ∧ c.toNat ≤ 122) := by simpa [UInt32.le_iff_toNat_le] using hc
    omega

section

variable {c : Char}

theorem toUpper_of_not_lower (h : c.toNat < 97 ∨ 122 < c.toNat) : c.toUpper = c := by
  refine dif_neg fun hc => ?_
  have hle : 97 ≤ c.toNat ∧ c.toNat ≤ 122 := by simpa [UInt32.le_iff_toNat_le] using hc
  omega

theorem toUpper_eq_or (c : Char) : isLetter c = true ∨ c.toUpper = c := by
  by_cases h : 97 ≤ c.toNat ∧ c.toNat ≤ 122
  · exact Or.inl (by simp [isLetter, h])
  · exact Or.inr (toUpper_of_not_lower (by omega))

/-- Upper case leaves letters letters, and makes none. -/
theorem isLetter_toUpper (c : Char) : isLetter c.toUpper = isLetter c := by
  rcases toUpper_eq_or c with h | h
  · have hupper := isUpper_iff.mp (isUpper_toUpper h)
    rw [h]
    simp [isLetter, hupper]
  · rw [h]

theorem toNat_of_plain (h : c.isUpper = true ∨ c.isDigit = true) :
    65 ≤ c.toNat ∧ c.toNat ≤ 90 ∨ 48 ≤ c.toNat ∧ c.toNat ≤ 57 :=
  h.imp isUpper_iff.mp isDigit_iff.mp

theorem toUpper_of_plain (h : c.isUpper = true ∨ c.isDigit = true) : c.toUpper = c :=
  toUpper_of_not_lower (by have := toNat_of_plain h; omega)

theorem isBlank_of_plain (h : c.isUpper = true ∨ c.isDigit = true) : Text.isBlank c = false := by
  have := toNat_of_plain h
  refine Bool.eq_false_iff.mpr fun hb => ?_
  simp only [Text.isBlank, Bool.or_eq_true, Bool.and_eq_true, decide_eq_true_eq, beq_iff_eq] at hb
  omega

end

namespace Plain

variable {s : String}

theorem trimList (h : Plain s) : Text.trimList s.toList = s.toList :=
  Text.trimList_eq_self (fun c hc => isBlank_of_plain (h c (List.mem_of_mem_head? hc)))
    fun c hc => isBlank_of_plain (h c (List.mem_of_mem_getLast? hc))

theorem upperList : ∀ {cs : List Char},
    (∀ c ∈ cs, c.isUpper = true ∨ c.isDigit = true) → Text.upperList cs = cs
  | [], _ => rfl
  | c :: cs, h => by
    have hc := h c (by simp)
    have hone : Text.upperChar c = [c] :=
      Text.upperChar_of_upper (by have := toNat_of_plain hc; omega) (toUpper_of_plain hc)
    have ih := upperList fun d hd => h d (List.mem_cons_of_mem c hd)
    rw [Text.upperList] at ih ⊢
    rw [List.flatMap_cons, hone, ih]
    rfl

/-- **A plain label is kept as it is.** -/
theorem normalize (h : Plain s) : Label.normalize s = s := by
  rw [Label.normalize, Text.trim, h.trimList, String.ofList_toList, Text.upper, upperList h,
    String.ofList_toList]

theorem ne_colon (h : Plain s) : ∀ c ∈ s.toList, c ≠ ':' := by
  rintro c hc rfl
  exact absurd (h ':' hc) (by decide)

end Plain

/-! ### Labels of positions -/

theorem toNat_letter {place : Nat} (h : place < 26) : (Column.letter place).toNat = 65 + place := by
  rw [Column.letter, Char.ofNat, dif_pos (Or.inl (by omega))]
  rfl

/-- A position in one of the first 26 columns is named by one letter. -/
theorem label_of_column_lt {p : Position} (h : p.column < 26) :
    p.label = String.ofList [Column.letter p.column] ++ toString (p.row + 1) := by
  rw [Position.label, Column.letters, if_pos h]

theorem isUpper_of_mem_letters (index : Nat) : ∀ c ∈ Column.letters index, c.isUpper = true := by
  fun_induction Column.letters index with
  | case1 index h =>
    intro c hc
    obtain rfl := List.mem_singleton.mp hc
    exact isUpper_iff.mpr (by rw [toNat_letter h]; omega)
  | case2 index h ih =>
    intro c hc
    rcases List.mem_append.mp hc with hc | hc
    · exact ih c hc
    · obtain rfl := List.mem_singleton.mp hc
      have := Nat.mod_lt index (show 26 > 0 by omega)
      exact isUpper_iff.mpr (by rw [toNat_letter this]; omega)

theorem plain_label (p : Position) : Plain p.label := by
  intro c hc
  rw [Position.label, String.toList_append, String.toList_ofList, List.mem_append] at hc
  rcases hc with hc | hc
  · exact Or.inl (isUpper_of_mem_letters p.column c hc)
  · exact Or.inr (Nat.isDigit_of_mem_toDigits (by omega) (by omega) (Nat.toList_repr ▸ hc))

/-! ### Ranges -/

/-- A malformed reference, not a numeral of too many digits. -/
def IsBadReference (f : Fault) : Prop :=
  ∃ ref reason, f = .badReference ref reason

/-- A numeral of too many digits. -/
def IsLongNumeral (f : Fault) : Prop :=
  ∃ digits, f = .numeralTooLong digits

/-- **A label that names no position** is malformed, or its row number is too long. -/
theorem position_fault {s : String} {f : Fault} (hf : position s = .error f) :
    IsBadReference f ∨ ∃ letters digits, split? (Text.trimList s.toList) = some (letters, digits) ∧
      numeralLimit < digits.length ∧ f = .numeralTooLong digits.length := by
  unfold position at hf
  split at hf
  · exact Or.inl ⟨s, .label, (Except.error.inj hf).symm⟩
  · next letters digits hs =>
    cases hcol : Column.ofName (String.ofList letters) with
    | error g =>
      rw [hcol] at hf
      obtain rfl : g = f := Except.error.inj hf
      unfold Column.ofName at hcol
      split at hcol
      · cases hcol
      · exact Or.inl ⟨_, .columnLetters, (Except.error.inj hcol).symm⟩
    | ok column =>
      rw [hcol] at hf
      unfold Numeral.read at hf
      by_cases hlen : digits.length ≤ numeralLimit
      · rw [if_pos hlen] at hf
        simp only [bind, Except.bind] at hf
        split at hf
        · exact Or.inl ⟨s, .rowNumber, (Except.error.inj hf).symm⟩
        · cases hf
      · rw [if_neg hlen] at hf
        exact Or.inr ⟨letters, digits, hs, Nat.lt_of_not_le hlen, (Except.error.inj hf).symm⟩

theorem position_of_plain {s : String} (h : Plain s) (hrow : (rowDigits s).length ≤ numeralLimit)
    {f : Fault} (hf : position s = .error f) : IsBadReference f := by
  rcases position_fault hf with hbad | ⟨letters, digits, hs, hlen, -⟩
  · exact hbad
  · rw [h.trimList] at hs
    unfold split? at hs
    dsimp only at hs
    split_ifs at hs
    obtain ⟨-, rfl⟩ := Prod.mk.inj (Option.some.inj hs)
    exact absurd hrow (Nat.not_le_of_lt hlen)

theorem corners_of_ne_colon {a b : String} (ha : ∀ c ∈ a.toList, c ≠ ':')
    (hb : ∀ c ∈ b.toList, c ≠ ':') :
    Range.corners? (a ++ ":" ++ b).toList = some (a.toList, b.toList) := by
  have htext : (a ++ ":" ++ b).toList = a.toList ++ ':' :: b.toList := by simp
  have hdrop : (a.toList ++ ':' :: b.toList).dropWhile (· ≠ ':') = ':' :: b.toList := by
    rw [List.dropWhile_append_of_pos fun c hc => by simpa using ha c hc]
    rfl
  have htake : (a.toList ++ ':' :: b.toList).takeWhile (· ≠ ':') = a.toList := by
    rw [List.takeWhile_append_of_pos fun c hc => by simpa using ha c hc]
    simp
  have hcolon : b.toList.contains ':' = false := by
    simpa using fun h => hb ':' h rfl
  unfold Range.corners?
  rw [htext, hdrop]
  simp only [hcolon]
  exact congrArg some (Prod.ext htake rfl)

/-- A range that cannot be read is malformed, or one of its corners cannot be read. -/
theorem labels_fault_cases {ref : String} {f : Fault} (hf : Range.labels ref = .error f) :
    IsBadReference f ∨ ∃ a b, Range.corners? ref.toList = some (a, b) ∧
      (position (String.ofList a) = .error f ∨ position (String.ofList b) = .error f) := by
  unfold Range.labels at hf
  split at hf
  · exact Or.inl ⟨_, .range, (Except.error.inj hf).symm⟩
  · next a b hcorners =>
    split_ifs at hf with hblank
    · exact Or.inl ⟨_, .range, (Except.error.inj hf).symm⟩
    · refine Or.inr ⟨a, b, hcorners, ?_⟩
      cases hp : position (String.ofList a) with
      | error g =>
        rw [hp] at hf
        exact Or.inl (congrArg _ (Except.error.inj hf))
      | ok p =>
        cases hq : position (String.ofList b) with
        | error g =>
          rw [hp, hq] at hf
          exact Or.inr (congrArg _ (Except.error.inj hf))
        | ok q =>
          rw [hp, hq] at hf
          cases hf

/-- **A range that cannot be read** is malformed, or a row number is too long. -/
theorem labels_fault {ref : String} {f : Fault} (hf : Range.labels ref = .error f) :
    IsBadReference f ∨ IsLongNumeral f := by
  have hposition {s : String} (hs : position s = .error f) : IsBadReference f ∨ IsLongNumeral f :=
    (position_fault hs).imp_right fun ⟨_, digits, _, _, h⟩ => ⟨digits.length, h⟩
  rcases labels_fault_cases hf with hbad | ⟨a, b, -, ha | hb⟩
  · exact Or.inl hbad
  · exact hposition ha
  · exact hposition hb

/-- A range with plain corners and short row numbers is read, unless it is malformed. -/
theorem labels_of_plain {a b : String} (ha : Plain a) (hb : Plain b)
    (hrow : (rowDigits a).length ≤ numeralLimit) (hrow' : (rowDigits b).length ≤ numeralLimit)
    {f : Fault} (hf : Range.labels (a ++ ":" ++ b) = .error f) : IsBadReference f := by
  rcases labels_fault_cases hf with hbad | ⟨a', b', hcorners, h⟩
  · exact hbad
  · rw [corners_of_ne_colon ha.ne_colon hb.ne_colon] at hcorners
    obtain ⟨rfl, rfl⟩ := Prod.mk.inj (Option.some.inj hcorners)
    rw [String.ofList_toList, String.ofList_toList] at h
    rcases h with h | h
    · exact position_of_plain ha hrow h
    · exact position_of_plain hb hrow' h

theorem plain_of_mem_labels {ref : String} {labels : List String}
    (h : Range.labels ref = .ok labels) : ∀ l ∈ labels, Plain l := by
  obtain ⟨positions, rfl⟩ : ∃ positions : List Position, labels = positions.map Position.label := by
    unfold Range.labels at h
    split at h
    · cases h
    · next a b _ =>
      split_ifs at h
      cases hp : position (String.ofList a) with
      | error g => rw [hp] at h; cases h
      | ok p =>
        cases hq : position (String.ofList b) with
        | error g => rw [hp, hq] at h; cases h
        | ok q =>
          rw [hp, hq] at h
          exact ⟨Range.rectangle p q, (Except.ok.inj h).symm⟩
  intro l hl
  obtain ⟨p, -, rfl⟩ := List.mem_map.mp hl
  exact plain_label p

end Spreadsheet.Label
