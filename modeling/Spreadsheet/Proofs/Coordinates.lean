import Spreadsheet.Proofs.Columns
import Spreadsheet.Proofs.Decimal.Numerals

/-! # Labels as a code

Columns and their names determine one another: the name of a column is read as that column
(`ofName_letters`), and a text that is read as a column is its name in upper case (`name_of_ofName`).
So do positions and their labels, as long as row numbers can be written and read (`position_label`,
`ofRowColumn_eq_ok_iff`). Hence labels are a code of positions (`position_code`). -/

namespace Spreadsheet

namespace Column

variable {s : String} {n : Nat} {index : Int}

theorem upperList_letters (n : Nat) : Text.upperList (letters n) = letters n :=
  Label.Plain.upperList fun c hc => Or.inl (Label.isUpper_of_mem_letters n c hc)

/-- **The letters of a column** are read as that column. -/
theorem ofName_letters (n : Nat) : ofName (String.ofList (letters n)) = .ok n :=
  ofName_eq_ok_iff.mpr (by rw [String.toList_ofList, upperList_letters])

theorem name_eq_ok_iff : name index = .ok s ↔
    ∃ n : Nat, index = n ∧ s = String.ofList (letters n) := by
  cases index with
  | ofNat n =>
    constructor
    · intro h
      exact ⟨n, rfl, (Except.ok.inj h).symm⟩
    · rintro ⟨m, hm, rfl⟩
      obtain rfl := Int.ofNat.inj hm
      rfl
  | negSucc n =>
    constructor
    · intro h
      exact absurd h Numeral.refusal_ne_ok
    · rintro ⟨m, hm, -⟩
      cases hm

/-- **A text that is read as a column** is its name in upper case. -/
theorem name_of_ofName (h : ofName s = .ok n) : name n = .ok (Text.upper s) :=
  name_eq_ok_iff.mpr ⟨n, rfl, congrArg String.ofList (ofName_eq_ok_iff.mp h)⟩

end Column

namespace Label

variable {p : Position} {row column : Int} {l : String}

/-- **The label of a position** is read as that position, if its row number can be read. -/
theorem position_label (h : p.row + 1 < 10 ^ numeralLimit) : position p.label = .ok p := by
  have hrow : Numeral.read (toString (p.row + 1)).toList = .ok (p.row + 1) := by
    rw [show (toString (p.row + 1)).toList = Nat.toDigits 10 (p.row + 1) from Nat.toList_repr]
    exact Numeral.read_toDigits h
  rw [position, (plain_label p).trimList, split?_label]
  simp only [Column.ofName_letters, hrow]
  rfl

/-- A label that names a position has a row number that can be written. -/
theorem row_lt_of_position (h : position l = .ok p) : p.row + 1 < 10 ^ numeralLimit := by
  obtain ⟨letters, -, -, hrow⟩ := position_eq_ok h
  exact Numeral.lt_of_read hrow

/-- **A row and a column have a label** if they are those of a position whose row number can be
written. -/
theorem ofRowColumn_eq_ok_iff : ofRowColumn row column = .ok l ↔
    ∃ p : Position, row = p.row ∧ column = p.column ∧ p.row + 1 < 10 ^ numeralLimit ∧
      l = p.label := by
  unfold ofRowColumn
  constructor
  · intro h
    cases row with
    | negSucc n =>
      rw [if_pos (Int.negSucc_lt_zero n)] at h
      exact absurd h Numeral.refusal_ne_ok
    | ofNat r =>
      rw [if_neg (by simp)] at h
      cases hname : Column.name column with
      | error f => rw [hname] at h; cases h
      | ok name =>
        obtain ⟨c, rfl, rfl⟩ := Column.name_eq_ok_iff.mp hname
        rw [hname, show Int.ofNat r + 1 = ((r + 1 : Nat) : Int) from rfl,
          Numeral.write_natCast] at h
        by_cases hr : r + 1 < 10 ^ numeralLimit
        · rw [if_pos hr] at h
          exact ⟨⟨r, c⟩, rfl, rfl, hr, (Except.ok.inj h).symm⟩
        · rw [if_neg hr] at h
          cases h
  · rintro ⟨p, rfl, rfl, hrow, rfl⟩
    rw [if_neg (by omega), Column.name_eq_ok_iff.mpr ⟨p.column, rfl, rfl⟩,
      show (p.row : Int) + 1 = ((p.row + 1 : Nat) : Int) from rfl, Numeral.write_natCast,
      if_pos hrow]
    rfl

/-- **Labels are a code of positions.** A column is what its name is read as; a text of letters is
the name of what it is read as, in upper case; and a row and a column whose row number can be written
are what their label is read as, so that no others have that label. -/
theorem position_code :
    (∀ index : Nat, (do Column.ofName (← Column.name index)) = .ok index) ∧
    (∀ s : String, s ≠ "" → (∀ c ∈ s.toList, isLetter c = true) →
      (do Column.name (← Column.ofName s)) = .ok (Text.upper s)) ∧
    (∀ row column : Nat, row + 1 < 10 ^ numeralLimit →
      (do position (← ofRowColumn row column)) = .ok ⟨row, column⟩) ∧
    ∀ (row column row' column' : Int) (l : String), ofRowColumn row column = .ok l →
      ofRowColumn row' column' = .ok l → row = row' ∧ column = column' := by
  refine ⟨fun index => ?_, fun s hne hletters => ?_, fun row column hrow => ?_,
    fun row column row' column' l h h' => ?_⟩
  · exact Column.ofName_letters index
  · obtain ⟨n, hn⟩ := Column.exists_ofName_iff.mpr ⟨hne, fun c hc => Or.inl (hletters c hc)⟩
    rw [hn]
    exact Column.name_of_ofName hn
  · rw [ofRowColumn_eq_ok_iff.mpr ⟨⟨row, column⟩, rfl, rfl, hrow, rfl⟩]
    exact position_label hrow
  · obtain ⟨p, rfl, rfl, -, rfl⟩ := ofRowColumn_eq_ok_iff.mp h
    obtain ⟨q, rfl, rfl, -, hlabel⟩ := ofRowColumn_eq_ok_iff.mp h'
    obtain rfl := label_injective hlabel
    exact ⟨rfl, rfl⟩

theorem position_code_twoLetters :
    (do Column.ofName (← Column.name 26)) = .ok 26 ∧ "zA" ≠ "" ∧
    (∀ c ∈ "zA".toList, isLetter c = true) ∧
    (do Column.name (← Column.ofName "zA")) = .ok "ZA" ∧ 9 + 1 < 10 ^ numeralLimit ∧
    (do position (← ofRowColumn 9 26)) = .ok ⟨9, 26⟩ ∧ ofRowColumn 9 26 = .ok "AA10" ∧
    ∀ row column, ofRowColumn row column = .ok "AA10" → row = 9 ∧ column = 26 := by
  have hletters : ∀ c ∈ "zA".toList, isLetter c = true := List.all_eq_true.mp rfl
  have hrow : 9 + 1 < 10 ^ numeralLimit := by decide +kernel
  have hlabel : ofRowColumn 9 26 = .ok "AA10" := by decide +kernel
  obtain ⟨hcolumn, hname, hposition, hdistinct⟩ := position_code
  exact ⟨hcolumn 26, by decide, hletters, hname "zA" (by decide) hletters, hrow, hposition 9 26 hrow,
    hlabel, fun row column h => hdistinct _ _ _ _ _ h hlabel⟩

end Label

end Spreadsheet
