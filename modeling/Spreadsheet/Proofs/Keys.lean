import Spreadsheet.Proofs.Text
import Spreadsheet.Sheet.Wire

/-! # Labels under which cells are kept

Cells are kept under upper-case letters followed by decimal digits (`Label.IsKey`); all that is
written and read gets such a label (`isKey_of_keyLabel?`, `isKey_of_position`), and it is its own
normal spelling (`IsKey.normalize`).

The letters of a column are determined by its number (`Column.letters_of_count?`), but row numbers
are written in several ways. So a label names the position `p` and is kept as `p.label` only if its
row number is written as `p.label` writes it (`normalize_eq_label_iff`). -/

namespace Spreadsheet

/-! ### Columns -/

namespace Column

theorem letterValue?_letter {place : Nat} (h : place < 26) :
    letterValue? (letter place) = some (place + 1) := by
  rw [letterValue?, Label.toNat_letter h, if_pos (by omega)]
  congr 1
  omega

theorem letter_of_letterValue? {c : Char} {n : Nat} (h : letterValue? c = some n) :
    1 ≤ n ∧ n ≤ 26 ∧ c = letter (n - 1) := by
  unfold letterValue? at h
  split_ifs at h with hc
  obtain rfl := Option.some.inj h
  refine ⟨by omega, by omega, ?_⟩
  rw [letter, show 65 + (c.toNat - 64 - 1) = c.toNat by omega, Char.ofNat_toNat]

theorem count?_concat (front : List Char) (c : Char) : count? (front ++ [c]) =
    (count? front).bind fun m => (letterValue? c).map (m * 26 + ·) := by
  simp [count?, List.foldlM_append]

theorem count?_letters (index : Nat) : count? (letters index) = some (index + 1) := by
  fun_induction letters index with
  | case1 index h =>
    rw [← List.nil_append [letter index], count?_concat, letterValue?_letter h]
    simp [count?]
  | case2 index h ih =>
    have hmod := Nat.mod_lt index (show 26 > 0 by omega)
    rw [count?_concat, ih, letterValue?_letter hmod]
    simp only [Option.bind_some, Option.map_some, Option.some.injEq]
    omega

/-- Every letter counts. -/
theorem eq_nil_of_count? {cs : List Char} (h : count? cs = some 0) : cs = [] := by
  rcases List.eq_nil_or_concat cs with rfl | ⟨front, c, rfl⟩
  · rfl
  · rw [List.concat_eq_append, count?_concat, Option.bind_eq_some_iff] at h
    obtain ⟨m, -, h⟩ := h
    obtain ⟨v, hv, h⟩ := Option.map_eq_some_iff.mp h
    have := (letter_of_letterValue? hv).1
    omega

/-- **The letters of a column** are determined by its number. -/
theorem letters_of_count? (cs : List Char) : ∀ {n : Nat}, count? cs = some (n + 1) →
    cs = letters n := by
  induction cs using List.reverseRecOn with
  | nil =>
    intro n h
    cases h
  | append_singleton front c ih =>
    intro n h
    rw [count?_concat, Option.bind_eq_some_iff] at h
    obtain ⟨m, hm, h⟩ := h
    obtain ⟨v, hv, h⟩ := Option.map_eq_some_iff.mp h
    obtain ⟨hpos, hle, rfl⟩ := letter_of_letterValue? hv
    cases m with
    | zero =>
      obtain rfl := eq_nil_of_count? hm
      rw [letters, if_pos (by omega), List.nil_append, show v - 1 = n by omega]
    | succ k =>
      rw [letters, if_neg (by omega), ih hm, show n / 26 - 1 = k by omega,
        show n % 26 = v - 1 by omega]

theorem eq_letters_of_ofName {s : String} {n : Nat} (h : ofName s = .ok n) :
    Text.upperList s.toList = letters n := by
  unfold ofName at h
  split at h
  · next m hm =>
    obtain rfl := Except.ok.inj h
    exact letters_of_count? _ hm
  · cases h

end Column

namespace Label

/-! ### Letters and digits -/

theorem isBlank_of_isLetter {c : Char} (h : isLetter c = true) : Text.isBlank c = false := by
  simp only [isLetter, Bool.or_eq_true, Bool.and_eq_true, decide_eq_true_eq] at h
  refine Bool.eq_false_iff.mpr fun hb => ?_
  simp only [Text.isBlank, Bool.or_eq_true, Bool.and_eq_true, decide_eq_true_eq, beq_iff_eq] at hb
  omega

/-- A label is split where its letters end. -/
theorem split?_eq_some_iff {cs letters digits : List Char} :
    split? cs = some (letters, digits) ↔ cs = letters ++ digits ∧ letters ≠ [] ∧ digits ≠ [] ∧
      (∀ c ∈ letters, isLetter c = true) ∧ ∀ c ∈ digits, Text.isDigit c = true := by
  unfold split?
  dsimp only
  constructor
  · intro h
    split_ifs at h with hparts
    obtain ⟨rfl, rfl⟩ := Prod.mk.inj (Option.some.inj h)
    simp only [Bool.or_eq_true, List.isEmpty_iff, Bool.not_eq_true', not_or,
      Bool.not_eq_false, List.all_eq_true] at hparts
    exact ⟨List.takeWhile_append_dropWhile.symm, hparts.1.1, hparts.1.2,
      fun c hc => List.mem_takeWhile_imp hc, hparts.2⟩
  · rintro ⟨rfl, hletters, hdigits, hl, hd⟩
    obtain ⟨d, rest, rfl⟩ := List.exists_cons_of_ne_nil hdigits
    have hstop : isLetter d = false := Text.isLetter_of_isDigit (hd d List.mem_cons_self)
    have htake : (letters ++ d :: rest).takeWhile isLetter = letters := by
      rw [List.takeWhile_append_of_pos hl, List.takeWhile_cons_of_neg (by simp [hstop]),
        List.append_nil]
    have hdrop : (letters ++ d :: rest).dropWhile isLetter = d :: rest := by
      rw [List.dropWhile_append_of_pos hl, List.dropWhile_cons_of_neg (by simp [hstop])]
    have hall : (d :: rest).all Text.isDigit = true := List.all_eq_true.mpr hd
    simp [htake, hdrop, hletters, hall]

/-- The numeral of the row in a label. -/
def rowNumeral (s : String) : List Char :=
  (Text.trimList s.toList).dropWhile isLetter

/-- **A label under which cells are kept**: upper-case letters followed by decimal digits. -/
def IsKey (k : String) : Prop :=
  ∃ letters digits, k = String.ofList (letters ++ digits) ∧ letters ≠ [] ∧ digits ≠ [] ∧
    (∀ c ∈ letters, c.isUpper = true) ∧ ∀ c ∈ digits, Text.isDigit c = true

theorem isLetter_of_isUpper {c : Char} (h : c.isUpper = true) : isLetter c = true := by
  have := isUpper_iff.mp h
  simp [isLetter, this]

theorem upperList_of_isDigit {cs : List Char} (h : ∀ c ∈ cs, Text.isDigit c = true) :
    Text.upperList cs = cs := by
  induction cs with
  | nil => rfl
  | cons c cs ih =>
    have hrest := ih fun d hd => h d (List.mem_cons_of_mem c hd)
    rw [Text.upperList] at hrest ⊢
    rw [List.flatMap_cons, Text.upperChar_of_isDigit (h c List.mem_cons_self), hrest]
    rfl

theorem upperList_of_isLetter {cs : List Char} (h : ∀ c ∈ cs, isLetter c = true) :
    Text.upperList cs = cs.map Char.toUpper := by
  rw [Text.upperList, List.map_eq_flatMap]
  refine List.flatMap_congr fun c hc => ?_
  have hletter := h c hc
  simp only [isLetter, Bool.or_eq_true, Bool.and_eq_true, decide_eq_true_eq] at hletter
  rw [Text.upperChar, if_pos (by omega)]

/-- Letters followed by digits have no blanks at their ends. -/
theorem trimList_of_parts {letters digits : List Char} (hletters : letters ≠ [])
    (hdigits : digits ≠ []) (hl : ∀ c ∈ letters, isLetter c = true)
    (hd : ∀ c ∈ digits, Text.isDigit c = true) :
    Text.trimList (letters ++ digits) = letters ++ digits := by
  refine Text.trimList_eq_self (fun c hc => ?_) fun c hc => ?_
  · rw [List.head?_append_of_ne_nil _ hletters] at hc
    exact isBlank_of_isLetter (hl c (List.mem_of_mem_head? hc))
  · rw [List.getLast?_append_of_ne_nil _ hdigits] at hc
    exact Text.isBlank_of_isDigit (hd c (List.mem_of_mem_getLast? hc))

theorem IsKey.isLabel {k : String} (h : IsKey k) : isLabel k = true := by
  obtain ⟨letters, digits, rfl, hletters, hdigits, hl, hd⟩ := h
  rw [Label.isLabel, String.toList_ofList, split?_eq_some_iff.mpr
    ⟨rfl, hletters, hdigits, fun c hc => isLetter_of_isUpper (hl c hc), hd⟩]
  rfl

theorem IsKey.trimList {k : String} (h : IsKey k) : Text.trimList k.toList = k.toList := by
  obtain ⟨letters, digits, rfl, hletters, hdigits, hl, hd⟩ := h
  rw [String.toList_ofList]
  exact trimList_of_parts hletters hdigits (fun c hc => isLetter_of_isUpper (hl c hc)) hd

theorem IsKey.upperList {k : String} (h : IsKey k) : Text.upperList k.toList = k.toList := by
  obtain ⟨letters, digits, rfl, -, -, hl, hd⟩ := h
  rw [String.toList_ofList, Text.upperList_append, Plain.upperList fun c hc => Or.inl (hl c hc),
    upperList_of_isDigit hd]

/-- **A label under which cells are kept** is its own normal spelling. -/
theorem IsKey.normalize {k : String} (h : IsKey k) : Label.normalize k = k := by
  rw [Label.normalize, Text.trim, h.trimList, String.ofList_toList, Text.upper, h.upperList,
    String.ofList_toList]

/-- A label in upper case is one under which cells are kept. -/
theorem isKey_upper {letters digits : List Char} (hletters : letters ≠ []) (hdigits : digits ≠ [])
    (hl : ∀ c ∈ letters, isLetter c = true) (hd : ∀ c ∈ digits, Text.isDigit c = true) :
    IsKey (String.ofList (Text.upperList (letters ++ digits))) := by
  refine ⟨letters.map Char.toUpper, digits, ?_, by simpa using hletters, hdigits, ?_, hd⟩
  · rw [Text.upperList_append, upperList_of_isLetter hl, upperList_of_isDigit hd]
  · exact List.forall_mem_map.mpr fun c hc => isUpper_toUpper (hl c hc)

/-- The normal spelling of a text is a label only if cells can be kept under it. -/
theorem isKey_of_isLabel {s : String} (h : isLabel (Label.normalize s) = true) :
    IsKey (Label.normalize s) := by
  obtain ⟨⟨letters, digits⟩, hparts⟩ := Option.isSome_iff_exists.mp h
  obtain ⟨heq, hletters, hdigits, hl, hd⟩ := split?_eq_some_iff.mp hparts
  refine ⟨letters, digits, by rw [← heq, String.ofList_toList], hletters, hdigits,
    fun c hc => ?_, hd⟩
  have hmem : c ∈ Text.upperList (Text.trim s).toList := by
    rw [Label.normalize, Text.upper, String.toList_ofList] at heq
    exact heq ▸ List.mem_append_left digits hc
  obtain ⟨d, -, hc'⟩ := List.mem_flatMap.mp hmem
  have hrange := Text.mem_upperChar_range hc'
  have hletter := hl c hc
  simp only [isLetter, Bool.or_eq_true, Bool.and_eq_true, decide_eq_true_eq] at hletter
  exact isUpper_iff.mpr (by omega)

theorem isKey_of_keyLabel? {key : Scalar} {label : String}
    (h : Sheet.keyLabel? key = some label) : IsKey label := by
  unfold Sheet.keyLabel? at h
  split at h
  · split_ifs at h with hlabel
    obtain rfl := Option.some.inj h
    exact isKey_of_isLabel hlabel
  · cases h

/-! ### Positions -/

variable {s : String} {p : Position}

/-- **A label names a position** by its column and the number of its row. -/
theorem position_eq_ok (h : position s = .ok p) : ∃ letters,
    split? (Text.trimList s.toList) = some (letters, rowNumeral s) ∧
      Text.upperList letters = Column.letters p.column ∧
        Numeral.read (rowNumeral s) = .ok (p.row + 1) := by
  unfold position at h
  split at h
  · cases h
  · next letters digits hparts =>
    have hdigits : digits = rowNumeral s := by
      unfold split? at hparts
      dsimp only at hparts
      split_ifs at hparts
      exact (Prod.mk.inj (Option.some.inj hparts)).2.symm
    subst hdigits
    refine ⟨letters, hparts, ?_⟩
    cases hcolumn : Column.ofName (String.ofList letters) with
    | error f => rw [hcolumn] at h; cases h
    | ok column =>
      cases hrow : Numeral.read (rowNumeral s) with
      | error f => rw [hcolumn, hrow] at h; cases h
      | ok row =>
        rw [hcolumn, hrow] at h
        cases row with
        | zero => cases h
        | succ row =>
          obtain rfl := Except.ok.inj h
          have hupper := Column.eq_letters_of_ofName hcolumn
          rw [String.toList_ofList] at hupper
          exact ⟨hupper, rfl⟩

/-- A label that names a position is kept by the letters of its column and the numeral of its
row. -/
theorem normalize_of_position (h : position s = .ok p) :
    Label.normalize s = String.ofList (Column.letters p.column ++ rowNumeral s) := by
  obtain ⟨letters, hparts, hupper, -⟩ := position_eq_ok h
  obtain ⟨heq, -, -, -, hd⟩ := split?_eq_some_iff.mp hparts
  rw [Label.normalize, Text.trim, heq, Text.upper, String.toList_ofList, Text.upperList_append,
    hupper, upperList_of_isDigit hd]

theorem isKey_of_position (h : position s = .ok p) : IsKey (Label.normalize s) := by
  obtain ⟨letters, hparts, hupper, -⟩ := position_eq_ok h
  obtain ⟨-, -, hdigits, -, hd⟩ := split?_eq_some_iff.mp hparts
  exact ⟨_, _, normalize_of_position h, Column.letters_ne_nil _, hdigits,
    isUpper_of_mem_letters _, hd⟩

/-- The numeral of a row as the labels of positions write it. -/
theorem toList_label (p : Position) :
    p.label = String.ofList (Column.letters p.column ++ (toString (p.row + 1)).toList) := by
  rw [Position.label, String.ofList_append, String.ofList_toList]

/-- The parts of a position's label are the letters of its column and the numeral of its row. -/
theorem split?_label (p : Position) : split? p.label.toList =
    some (Column.letters p.column, (toString (p.row + 1)).toList) := by
  have hdigits : (toString (p.row + 1)).toList = Nat.toDigits 10 (p.row + 1) := Nat.toList_repr
  refine split?_eq_some_iff.mpr ⟨by rw [toList_label, String.toList_ofList],
    Column.letters_ne_nil _, ?_, fun c hc => ?_, fun c hc => ?_⟩
  · exact hdigits ▸ Nat.toDigits_ne_nil
  · exact isLetter_of_isUpper (isUpper_of_mem_letters _ c hc)
  · exact Text.isDigit_of_ascii (Nat.isDigit_of_mem_toDigits (by omega) (by omega) (hdigits ▸ hc))

/-- Cells can be kept under the label of a position. -/
theorem isKey_label (p : Position) : IsKey p.label := by
  obtain ⟨-, hletters, hdigits, -, hd⟩ := split?_eq_some_iff.mp (split?_label p)
  exact ⟨_, _, toList_label p, hletters, hdigits, isUpper_of_mem_letters _, hd⟩

/-- **Positions have labels of their own.** -/
theorem label_injective : Function.Injective Position.label := by
  intro p q h
  have hparts := split?_label p
  rw [h, split?_label q] at hparts
  obtain ⟨hletters, hdigits⟩ := Prod.mk.inj (Option.some.inj hparts)
  have hcolumn : some (q.column + 1) = some (p.column + 1) := by
    rw [← Column.count?_letters, hletters, Column.count?_letters]
  have hnumeral : Nat.toDigits 10 (q.row + 1) = Nat.toDigits 10 (p.row + 1) :=
    Nat.toList_repr.symm.trans (hdigits.trans Nat.toList_repr)
  have hrow : q.row + 1 = p.row + 1 := by
    have hvalue := congrArg (Nat.ofDigitChars 10 · 0) hnumeral
    simpa only [Nat.ofDigitChars_toDigits (show 1 < 10 by decide) le_rfl] using hvalue
  cases p
  cases q
  simp_all

theorem ofList_append_inj {front cs ds : List Char} :
    String.ofList (front ++ cs) = String.ofList (front ++ ds) ↔ cs = ds := by
  rw [String.ofList_inj, List.append_cancel_left_eq]

/-- **Two labels of one position** are kept as one if their row numbers are written alike. -/
theorem normalize_eq_normalize_iff {t : String} (hs : position s = .ok p)
    (ht : position t = .ok p) :
    Label.normalize s = Label.normalize t ↔ rowNumeral s = rowNumeral t := by
  rw [normalize_of_position hs, normalize_of_position ht, ofList_append_inj]

/-- **A label of a position** is kept under the label that grids and ranges use if its row number is
written as they write it. -/
theorem normalize_eq_label_iff (hs : position s = .ok p) :
    Label.normalize s = p.label ↔ rowNumeral s = (toString (p.row + 1)).toList := by
  rw [normalize_of_position hs, toList_label, ofList_append_inj]

/-! ### Ranges between labels -/

theorem ne_colon_of_position (h : position s = .ok p) : ∀ c ∈ s.toList, c ≠ ':' := by
  rintro c hc rfl
  obtain ⟨letters, hparts, -, -⟩ := position_eq_ok h
  obtain ⟨heq, -, -, hl, hd⟩ := split?_eq_some_iff.mp hparts
  have hmem : ':' ∈ Text.trimList s.toList := Text.mem_trimList hc (by decide)
  rw [heq, List.mem_append] at hmem
  rcases hmem with hmem | hmem
  · exact absurd (hl _ hmem) (by decide)
  · exact absurd (hd _ hmem) (by decide)

theorem not_blank_of_position (h : position s = .ok p) : s.toList.all Text.isBlank = false := by
  refine Bool.eq_false_iff.mpr fun hall => ?_
  obtain ⟨letters, hparts, -, -⟩ := position_eq_ok h
  obtain ⟨heq, hletters, -, -, -⟩ := split?_eq_some_iff.mp hparts
  rw [Text.trimList, List.dropWhile_eq_nil_iff.mpr (List.all_eq_true.mp hall),
    Text.trimEnd_nil] at heq
  exact hletters (List.append_eq_nil_iff.mp heq.symm).1

/-- **A range between two labels** is read as the rectangle between the positions they name. -/
theorem labels_of_positions {t : String} {q : Position} (hs : position s = .ok p)
    (ht : position t = .ok q) :
    Range.labels (s ++ ":" ++ t) = .ok ((Range.rectangle p q).map Position.label) := by
  rw [Range.labels, corners_of_ne_colon (ne_colon_of_position hs) (ne_colon_of_position ht)]
  simp only [not_blank_of_position hs, not_blank_of_position ht, String.ofList_toList, hs, ht]
  rfl

theorem rectangle_self (p : Position) : Range.rectangle p p = [p] := by
  simp [Range.rectangle, Range.between]

/-- **The range of one cell** is the label of its position, whatever the label it is named by. -/
theorem labels_of_position (h : position s = .ok p) :
    Range.labels (s ++ ":" ++ s) = .ok [p.label] := by
  rw [labels_of_positions h h, rectangle_self]
  rfl

end Label

end Spreadsheet
