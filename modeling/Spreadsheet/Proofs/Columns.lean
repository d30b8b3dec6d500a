import Spreadsheet.Proofs.Keys

/-! # Names of columns

A text names a column if it is that column's letters in upper case (`ofName_eq_ok_iff`). Upper case
is that of all scripts, so the texts that name columns are those of ASCII letters, in any case, and
of ten more characters, which upper case turns into ASCII letters (`variants`,
`isUpper_upperChar_iff`). Every other text is refused (`ofName_accepts`). -/

namespace Spreadsheet.Column

/-! ### Characters that are letters in upper case -/

/-- The characters outside ASCII that are ASCII letters in upper case, by code point: sharp s,
dotless i, long s and the ligatures of `f` and `s`. -/
def variants : List Nat :=
  [0xdf, 0x131, 0x17f, 0xfb00, 0xfb01, 0xfb02, 0xfb03, 0xfb04, 0xfb05, 0xfb06]

theorem isUpper_of_variants : ∀ code ∈ variants,
    (Text.upperChar (Char.ofNat code)).all Char.isUpper = true := by
  decide +kernel

theorem variants_of_expansions : ∀ x ∈ Text.expansions,
    (∀ code ∈ x.2, (Char.ofNat code).isUpper = true) → x.1 ∈ variants := by
  decide +kernel

/-- A run that meets the upper-case ASCII letters is that of ASCII or holds one character. -/
theorem variants_of_upperRuns : ∀ r ∈ Text.upperRuns, r.last < 128 ∨
    r.image + (r.last - r.first) < 65 ∨ 90 < r.image ∨ r.first = r.last ∧ r.first ∈ variants := by
  decide +kernel

variable {c : Char} {cs : List Char} {s : String} {n : Nat}

/-- **Upper case makes ASCII letters** of ASCII letters and of ten more characters. -/
theorem isUpper_upperChar_iff : (∀ d ∈ Text.upperChar c, d.isUpper = true) ↔
    Label.isLetter c = true ∨ c.toNat ∈ variants := by
  constructor
  · intro h
    obtain ⟨-, hc⟩ | ⟨hascii, ⟨codes, hcodes, hc⟩ | ⟨r, hr, code, himage, hc⟩ | hc⟩ :=
      Text.upperChar_cases c <;> rw [hc] at h
    · refine Or.inl ?_
      rw [← Label.isLetter_toUpper]
      exact Label.isLetter_of_isUpper (h _ List.mem_cons_self)
    · exact Or.inr (variants_of_expansions _ hcodes fun code hcode => h _ (List.mem_map_of_mem hcode))
    · have hcode := Label.isUpper_iff.mp (h _ List.mem_cons_self)
      have := Text.toNat_ofNat code
      unfold Text.Run.image? at himage
      split_ifs at himage with hin
      obtain rfl := Option.some.inj himage
      obtain hlast | hlast | hlast | ⟨hone, hmem⟩ := variants_of_upperRuns r hr
      · omega
      · omega
      · omega
      · exact Or.inr ((show c.toNat = r.first by omega) ▸ hmem)
    · have := Label.isUpper_iff.mp (h _ List.mem_cons_self)
      omega
  · rintro (hletter | hvariant)
    · obtain ⟨-, hc⟩ | ⟨hascii, -⟩ := Text.upperChar_cases c
      · rw [hc]
        exact List.forall_mem_singleton.mpr (Label.isUpper_toUpper hletter)
      · simp only [Label.isLetter, Bool.or_eq_true, Bool.and_eq_true, decide_eq_true_eq] at hletter
        omega
    · rw [← Char.ofNat_toNat c]
      exact List.all_eq_true.mp (isUpper_of_variants _ hvariant)

/-! ### Texts that name columns -/

theorem isSome_letterValue? : (letterValue? c).isSome = true ↔ c.isUpper = true := by
  rw [Label.isUpper_iff, letterValue?]
  split_ifs with h <;> simp [h]

/-- Letters count as a column if each of them is one. -/
theorem isSome_count? : (count? cs).isSome = true ↔ ∀ c ∈ cs, c.isUpper = true := by
  induction cs using List.reverseRecOn with
  | nil => simp [count?]
  | append_singleton front c ih =>
    rw [count?_concat, List.forall_mem_append, List.forall_mem_singleton, ← ih,
      ← isSome_letterValue?]
    cases count? front <;> simp

/-- **A text names a column** if it is the column's letters in upper case. -/
theorem ofName_eq_ok_iff : ofName s = .ok n ↔ Text.upperList s.toList = letters n := by
  refine ⟨eq_letters_of_ofName, fun h => ?_⟩
  rw [ofName, h, count?_letters]

theorem ofName_eq_error {f : Fault} (h : ofName s = .error f) :
    f = .badReference s .columnLetters := by
  unfold ofName at h
  split at h
  · cases h
  · exact (Except.error.inj h).symm

/-- Letters name a column if there are any. -/
theorem exists_letters_iff : (∃ n, cs = letters n) ↔ cs ≠ [] ∧ ∀ c ∈ cs, c.isUpper = true := by
  constructor
  · rintro ⟨n, rfl⟩
    exact ⟨letters_ne_nil n, Label.isUpper_of_mem_letters n⟩
  · rintro ⟨hne, hupper⟩
    obtain ⟨count, hcount⟩ := Option.isSome_iff_exists.mp (isSome_count?.mpr hupper)
    cases count with
    | zero => exact absurd (eq_nil_of_count? hcount) hne
    | succ n => exact ⟨n, letters_of_count? cs hcount⟩

theorem upperList_eq_nil_iff : Text.upperList cs = [] ↔ cs = [] := by
  rw [Text.upperList, List.flatMap_eq_nil_iff, List.eq_nil_iff_forall_not_mem]
  simp only [Text.upperChar_ne_nil, imp_false]

theorem isUpper_upperList_iff : (∀ d ∈ Text.upperList cs, d.isUpper = true) ↔
    ∀ c ∈ cs, Label.isLetter c = true ∨ c.toNat ∈ variants := by
  rw [Text.upperList, List.forall_mem_flatMap]
  simp only [isUpper_upperChar_iff]

/-- **The texts that name columns** are those of ASCII letters and their variants. -/
theorem exists_ofName_iff : (∃ n, ofName s = .ok n) ↔
    s ≠ "" ∧ ∀ c ∈ s.toList, Label.isLetter c = true ∨ c.toNat ∈ variants := by
  simp only [ofName_eq_ok_iff]
  rw [exists_letters_iff, isUpper_upperList_iff, ne_eq, upperList_eq_nil_iff,
    String.toList_eq_nil_iff]

/-- A text that names no column is refused as it stands. -/
theorem ofName_eq_error_iff : ofName s = .error (.badReference s .columnLetters) ↔
    ¬ ∃ n, ofName s = .ok n := by
  cases h : ofName s with
  | ok n => simp
  | error f => simp [ofName_eq_error h]

/-- **A text names a column or is refused**: it names one if it is not empty and its characters are
ASCII letters, in any case, or variants of such, and it is refused if it is empty or has any other
character. -/
theorem ofName_accepts (s : String) :
    ((∃ n, ofName s = .ok n) ↔
      s ≠ "" ∧ ∀ c ∈ s.toList, Label.isLetter c = true ∨ c.toNat ∈ variants) ∧
    (ofName s = .error (.badReference s .columnLetters) ↔
      s = "" ∨ ∃ c ∈ s.toList, Label.isLetter c = false ∧ c.toNat ∉ variants) := by
  refine ⟨exists_ofName_iff, ?_⟩
  rw [ofName_eq_error_iff, exists_ofName_iff, not_and_or, not_ne_iff]
  simp only [not_forall, not_or, Bool.not_eq_true, exists_prop]

/-- **Sharp s names a column**, that of two letters. -/
theorem not_refused_sharp : ¬ ∀ s : String,
    (s ≠ "" ∧ (∀ c ∈ s.toList, Label.isLetter c = true) → ∃ n, ofName s = .ok n) ∧
      (¬ (s ≠ "" ∧ ∀ c ∈ s.toList, Label.isLetter c = true) →
        ofName s = .error (.badReference s .columnLetters)) := by
  intro h
  have hrefused := (h "ß").2 fun hletters =>
    absurd (hletters.2 'ß' (List.mem_singleton_self 'ß')) (by decide)
  have hnamed : ofName "ß" = .ok 512 := rfl
  rw [hnamed] at hrefused
  cases hrefused

end Spreadsheet.Column
