import Spreadsheet.Proofs.Label
import Mathlib.Data.List.DropRight

/-! # Blanks, digits and upper case

A text without the blanks at its ends has none there any more (`trimList_trimList`). The decimal
digits of all scripts are no blanks and no letters, and upper case leaves them as they are
(`upperChar_of_isDigit`); no lower-case ASCII letter is left in upper case (`mem_upperChar_range`).
What the tables of characters have to do with each other is computed. -/

namespace Spreadsheet.Text

/-! ### Blanks -/

/-- Only blanks before it keep a list from starting as it does without them. -/
theorem trimEnd_cons {c : Char} (h : isBlank c = false) (cs : List Char) :
    trimEnd (c :: cs) = c :: trimEnd cs := by
  unfold trimEnd
  rw [List.reverse_cons, List.dropWhile_append]
  split
  · next hnil =>
    rw [List.isEmpty_iff] at hnil
    simp [h, hnil]
  · simp

/-- What is left without blanks does not start with one. -/
theorem isBlank_head_trimList {cs : List Char} : ∀ c ∈ (trimList cs).head?, isBlank c = false := by
  intro c hc
  unfold trimList at hc
  cases hd : cs.dropWhile isBlank with
  | nil =>
    rw [hd] at hc
    cases hc
  | cons d rest =>
    have hblank : isBlank d = false := by
      have := List.head?_dropWhile_not isBlank cs
      simpa [hd] using this
    rw [hd, trimEnd_cons hblank] at hc
    exact Option.some.inj hc ▸ hblank

theorem isBlank_getLast_trimList {cs : List Char} :
    ∀ c ∈ (trimList cs).getLast?, isBlank c = false := by
  intro c hc
  have hne : trimList cs ≠ [] := fun hnil => by simp [hnil] at hc
  have hlast := List.rdropWhile_last_not isBlank (cs.dropWhile isBlank) hne
  rw [List.getLast?_eq_some_getLast hne] at hc
  obtain rfl := Option.some.inj hc
  exact Bool.eq_false_iff.mpr hlast

/-- **Blanks at the ends are left out once.** -/
theorem trimList_trimList (cs : List Char) : trimList (trimList cs) = trimList cs :=
  trimList_eq_self isBlank_head_trimList isBlank_getLast_trimList

theorem trim_trim (s : String) : trim (trim s) = trim s := by
  rw [trim, trim, String.toList_ofList, trimList_trimList]

theorem mem_dropWhile_isBlank {c : Char} (h : isBlank c = false) {cs : List Char} (hc : c ∈ cs) :
    c ∈ cs.dropWhile isBlank := by
  rw [← List.takeWhile_append_dropWhile (p := isBlank) (l := cs), List.mem_append] at hc
  refine hc.resolve_left fun hfront => ?_
  simp [List.mem_takeWhile_imp hfront] at h

/-- Only blanks are left out. -/
theorem mem_trimList {c : Char} {cs : List Char} (hc : c ∈ cs) (h : isBlank c = false) :
    c ∈ trimList cs := by
  refine List.mem_reverse.mpr (mem_dropWhile_isBlank h (List.mem_reverse.mpr ?_))
  exact mem_dropWhile_isBlank h hc

/-! ### Digits -/

/-- The digits of a script do not meet the blanks. -/
theorem scriptZeros_not_blank : ∀ origin ∈ scriptZeros, ∀ i < 10,
    isBlank (Char.ofNat (origin + i)) = false := by
  decide +kernel

/-- The digits of a script are no characters that upper case changes. -/
theorem scriptZeros_not_lower : ∀ origin ∈ scriptZeros,
    (∀ r ∈ upperRuns, r.last < origin ∨ origin + 9 < r.first) ∧
      ∀ x ∈ expansions, x.1 < origin ∨ origin + 9 < x.1 := by
  decide +kernel

theorem scriptZeros_range : ∀ origin ∈ scriptZeros, origin = 48 ∨ 128 ≤ origin := by
  decide

variable {c : Char}

/-- A digit stands in the row of its script's zero. -/
theorem exists_origin (h : isDigit c = true) :
    ∃ origin ∈ scriptZeros, ∃ i < 10, c.toNat = origin + i := by
  obtain ⟨d, hd⟩ := Option.isSome_iff_exists.mp h
  obtain ⟨origin, horigin, hd⟩ := List.exists_of_findSome?_eq_some hd
  split_ifs at hd with hc
  exact ⟨origin, horigin, c.toNat - origin, by omega, by omega⟩

/-- Digits are the ten of ASCII or not in ASCII. -/
theorem toNat_of_isDigit (h : isDigit c = true) : 48 ≤ c.toNat ∧ c.toNat ≤ 57 ∨ 128 ≤ c.toNat := by
  obtain ⟨origin, horigin, i, hi, hc⟩ := exists_origin h
  rcases scriptZeros_range origin horigin with rfl | ho <;> omega

/-- The digits of ASCII are digits. -/
theorem isDigit_of_ascii (h : c.isDigit = true) : isDigit c = true := by
  have hc := Label.isDigit_iff.mp h
  have hvalue : digitValue? c = some (c.toNat - 48) := by
    rw [digitValue?, scriptZeros, List.findSome?_cons, if_pos (by omega)]
  rw [isDigit, hvalue, Option.isSome_some]

theorem isBlank_of_isDigit (h : isDigit c = true) : isBlank c = false := by
  obtain ⟨origin, horigin, i, hi, hc⟩ := exists_origin h
  rw [← Char.ofNat_toNat c, hc]
  exact scriptZeros_not_blank origin horigin i hi

theorem isLetter_of_isDigit (h : isDigit c = true) : Label.isLetter c = false := by
  have := toNat_of_isDigit h
  simp only [Label.isLetter, Bool.or_eq_false_iff, Bool.and_eq_false_iff, decide_eq_false_iff_not]
  omega

/-- **Upper case leaves digits as they are.** -/
theorem upperChar_of_isDigit (h : isDigit c = true) : upperChar c = [c] := by
  obtain ⟨origin, horigin, i, hi, hc⟩ := exists_origin h
  obtain ⟨hruns, hexpansions⟩ := scriptZeros_not_lower origin horigin
  rcases toNat_of_isDigit h with hascii | hascii
  · refine upperChar_of_upper (by omega) (Label.toUpper_of_plain (Or.inr ?_))
    exact Label.isDigit_iff.mpr hascii
  · have hlookup : expansions.lookup c.toNat = none := by
      refine List.lookup_eq_none_iff.mpr fun x hx => ?_
      have := hexpansions x hx
      rw [bne_iff_ne]
      omega
    have himage : upperRuns.findSome? (·.image? c.toNat) = none := by
      refine List.findSome?_eq_none_iff.mpr fun r hr => if_neg ?_
      have := hruns r hr
      omega
    rw [upperChar, if_neg (by omega), upperByTable, hlookup]
    simp only [himage]

/-! ### Upper case -/

theorem upperRuns_range : ∀ r ∈ upperRuns, r.image + (r.last - r.first) < 97 ∨ 122 < r.image := by
  decide +kernel

theorem expansions_range : ∀ x ∈ expansions, ∀ code ∈ x.2, code < 97 ∨ 122 < code := by
  decide +kernel

theorem toNat_ofNat (code : Nat) :
    (Char.ofNat code).toNat = code ∨ (Char.ofNat code).toNat = 0 := by
  unfold Char.ofNat
  by_cases h : code.isValidChar
  · rw [dif_pos h]
    exact Or.inl rfl
  · rw [dif_neg h]
    exact Or.inr rfl

/-- **Upper case of one character** is that of ASCII, or stands in a table, or is the character. -/
theorem upperChar_cases (c : Char) : c.toNat < 128 ∧ upperChar c = [c.toUpper] ∨
    128 ≤ c.toNat ∧ ((∃ codes, (c.toNat, codes) ∈ expansions ∧ upperChar c = codes.map Char.ofNat) ∨
      (∃ r ∈ upperRuns, ∃ code, r.image? c.toNat = some code ∧ upperChar c = [Char.ofNat code]) ∨
      upperChar c = [c]) := by
  unfold upperChar
  split_ifs with hascii
  · exact Or.inl ⟨hascii, rfl⟩
  · refine Or.inr ⟨by omega, ?_⟩
    unfold upperByTable
    split
    · next codes hcodes =>
      obtain ⟨before, after, heq, -⟩ := List.lookup_eq_some_iff.mp hcodes
      exact Or.inl ⟨codes, heq ▸ List.mem_append_right _ List.mem_cons_self, rfl⟩
    · split
      · next code hcode =>
        obtain ⟨r, hr, himage⟩ := List.exists_of_findSome?_eq_some hcode
        exact Or.inr (Or.inl ⟨r, hr, code, himage, rfl⟩)
      · exact Or.inr (Or.inr rfl)

theorem expansions_ne_nil : ∀ x ∈ expansions, x.2 ≠ [] := by
  decide +kernel

/-- No character is lost in upper case. -/
theorem upperChar_ne_nil (c : Char) : upperChar c ≠ [] := by
  obtain ⟨-, hc⟩ | ⟨-, ⟨codes, hcodes, hc⟩ | ⟨r, hr, code, himage, hc⟩ | hc⟩ :=
    upperChar_cases c <;> rw [hc]
  · exact List.cons_ne_nil _ _
  · exact List.map_eq_nil_iff.not.mpr (expansions_ne_nil _ hcodes)
  · exact List.cons_ne_nil _ _
  · exact List.cons_ne_nil _ _

/-- **No lower-case ASCII letter is left** in upper case. -/
theorem mem_upperChar_range {d : Char} (h : d ∈ upperChar c) : d.toNat < 97 ∨ 122 < d.toNat := by
  obtain ⟨hascii, hc⟩ | ⟨hascii, ⟨codes, hcodes, hc⟩ | ⟨r, hr, code, himage, hc⟩ | hc⟩ :=
    upperChar_cases c <;> rw [hc] at h
  · obtain rfl := List.mem_singleton.mp h
    by_cases hlower : 97 ≤ c.toNat ∧ c.toNat ≤ 122
    · have hletter : Label.isLetter c = true := by simp [Label.isLetter, hlower]
      have := Label.isUpper_iff.mp (Label.isUpper_toUpper hletter)
      omega
    · rw [Label.toUpper_of_not_lower (by omega)]
      omega
  · obtain ⟨code, hcode, rfl⟩ := List.mem_map.mp h
    have := expansions_range _ hcodes code hcode
    have := toNat_ofNat code
    omega
  · obtain rfl := List.mem_singleton.mp h
    unfold Run.image? at himage
    split_ifs at himage with hin
    obtain rfl := Option.some.inj himage
    have := upperRuns_range r hr
    have := toNat_ofNat (r.image + (c.toNat - r.first))
    omega
  · obtain rfl := List.mem_singleton.mp h
    omega

end Spreadsheet.Text
