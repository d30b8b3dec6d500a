import Spreadsheet.ValueRef
import Spreadsheet.Proofs.Keys
import Spreadsheet.Proofs.Session.Stability

/-! # What value references name

A reference that a text holds names a sheet without an exclamation mark in its name and a label
under which cells are kept (`Valid`). The text of such a reference holds it again
(`Valid.ofText?_text`). Over sheets that sessions can read, a text resolves to what a new session on
the first sheet of the name gives for the cell, and to nothing if there is no such sheet
(`resolveText?_first`). -/

namespace Spreadsheet

open Session (after answer)

namespace ValueRef

/-! ### Texts of references -/

/-- **A reference as texts hold it.** -/
structure Valid (r : ValueRef) : Prop where
  named : r.sheetName ≠ ""
  plain : '!' ∉ r.sheetName.toList
  key : Label.IsKey r.cell

section

variable {cs name cell : List Char} {s ref : String} {r : ValueRef}

theorem split?_eq_some_iff : split? cs = some (name, cell) ↔
    cs = scheme ++ name ++ '!' :: cell ∧ name ≠ [] ∧ '!' ∉ name ∧ (Label.split? cell).isSome := by
  constructor
  · intro h
    unfold split? at h
    dsimp only at h
    split_ifs at h with hparts
    simp only [Bool.and_eq_true, Bool.not_eq_true', List.isEmpty_eq_false_iff] at hparts
    obtain ⟨⟨hscheme, hne⟩, hcell⟩ := hparts
    obtain ⟨rest, rfl⟩ := List.isPrefixOf_iff_prefix.mp hscheme
    obtain ⟨rfl, rfl⟩ := Prod.mk.inj (Option.some.inj h)
    rw [List.drop_left] at hne hcell ⊢
    obtain ⟨c, tail, htail⟩ : ∃ c tail, rest.dropWhile (· ≠ '!') = c :: tail := by
      refine List.exists_cons_of_ne_nil fun hnil => ?_
      rw [hnil] at hcell
      cases hcell
    obtain rfl : c = '!' := by
      have hstop := List.head?_dropWhile_not (· ≠ '!') rest
      rw [htail] at hstop
      simpa using hstop
    refine ⟨?_, hne, fun hmem => ?_, hcell⟩
    · rw [htail, List.drop_one, List.tail_cons, List.append_assoc, ← htail,
        List.takeWhile_append_dropWhile]
    · exact absurd (List.mem_takeWhile_imp hmem) (by decide)
  · rintro ⟨rfl, hne, hname, hcell⟩
    exact split?_scheme_append hne hname hcell

/-- A text that is put together as a reference has no blanks at its ends. -/
theorem trimList_scheme {letters digits : List Char} (hdigits : digits ≠ [])
    (hd : ∀ c ∈ digits, Text.isDigit c = true) :
    Text.trimList (scheme ++ name ++ '!' :: (letters ++ digits)) =
      scheme ++ name ++ '!' :: (letters ++ digits) := by
  refine Text.trimList_eq_self (fun c hc => ?_) fun c hc => ?_
  · obtain rfl : 's' = c := Option.some.inj hc
    rfl
  · rw [← List.cons_append, ← List.append_assoc, List.getLast?_append_of_ne_nil _ hdigits] at hc
    exact Text.isBlank_of_isDigit (hd c (List.mem_of_mem_getLast? hc))

/-- **A name and a label are read back** from the text that holds them, the label in upper case. -/
theorem ofText?_append {name : String} {letters digits : List Char} (hne : name ≠ "")
    (hname : '!' ∉ name.toList) (hletters : letters ≠ []) (hdigits : digits ≠ [])
    (hl : ∀ c ∈ letters, Label.isLetter c = true) (hd : ∀ c ∈ digits, Text.isDigit c = true) :
    ofText? ("sheet:" ++ name ++ "!" ++ String.ofList (letters ++ digits)) =
      some ⟨name, Text.upper (String.ofList (letters ++ digits))⟩ := by
  have htext : ("sheet:" ++ name ++ "!" ++ String.ofList (letters ++ digits)).toList =
      scheme ++ name.toList ++ '!' :: (letters ++ digits) := by
    simp only [String.toList_append, String.toList_ofList]
    change scheme ++ name.toList ++ ['!'] ++ (letters ++ digits) = _
    rw [List.append_assoc, List.singleton_append]
  have hsplit : split? (scheme ++ name.toList ++ '!' :: (letters ++ digits)) =
      some (name.toList, letters ++ digits) := by
    refine split?_scheme_append (by simpa using hne) hname ?_
    rw [Label.split?_eq_some_iff.mpr ⟨rfl, hletters, hdigits, hl, hd⟩, Option.isSome_some]
  rw [ofText?, htext, trimList_scheme hdigits hd, hsplit]
  simp [Text.upper]

theorem ofText?_valid (h : ofText? s = some r) : r.Valid := by
  obtain ⟨⟨name, cell⟩, hsplit, rfl⟩ := Option.map_eq_some_iff.mp h
  obtain ⟨-, hne, hname, hcell⟩ := split?_eq_some_iff.mp hsplit
  obtain ⟨⟨letters, digits⟩, hparts⟩ := Option.isSome_iff_exists.mp hcell
  obtain ⟨rfl, hletters, hdigits, hl, hd⟩ := Label.split?_eq_some_iff.mp hparts
  exact ⟨by simpa using hne, by simpa using hname, Label.isKey_upper hletters hdigits hl hd⟩

/-- **The text of a reference holds it.** -/
theorem Valid.ofText?_text (h : r.Valid) : ofText? r.text = some r := by
  obtain ⟨name, cell⟩ := r
  have hupper : Text.upper cell = cell := by
    rw [Text.upper, h.key.upperList, String.ofList_toList]
  obtain ⟨letters, digits, rfl, hletters, hdigits, hl, hd⟩ := h.key
  have hread := ofText?_append h.named h.plain hletters hdigits
    (fun c hc => Label.isLetter_of_isUpper (hl c hc)) hd
  rwa [hupper] at hread

end

/-! ### Values -/

section

variable {sheets before behind : List Sheet} {s : Sheet} {r : ValueRef} {ref : String}

theorem sheet?_eq_none_iff : r.sheet? sheets = none ↔ ∀ s ∈ sheets, s.name ≠ r.sheetName := by
  simp [sheet?, List.find?_eq_none]

/-- A reference names the first sheet of its name. -/
theorem sheet?_append (hs : s.name = r.sheetName) (hbefore : ∀ t ∈ before, t.name ≠ r.sheetName) :
    r.sheet? (before ++ s :: behind) = some s := by
  refine List.find?_eq_some_iff_append.mpr ⟨beq_iff_eq.mpr hs, before, behind, rfl, fun t ht => ?_⟩
  simpa using hbefore t ht

/-- What a new session on a sheet gives for a cell is something. -/
theorem exists_answer (hfit : s.NumeralsFit) (label : String) :
    ∃ v, v ≠ .null ∧ answer s (after s []) label = .ok v := by
  obtain ⟨v, hv, hm⟩ := Session.memo_after_cell hfit [] label
  exact ⟨v, (Session.after_atRest hfit _).filled _ v hm, hv⟩

theorem resolve?_eq (hs : r.sheet? sheets = some s) {v : Scalar}
    (hv : answer s (after s []) r.cell = .ok v) : r.resolve? sheets = .ok (some v) := by
  rw [resolve?, hs]
  exact congrArg (Except.map some) hv

theorem resolveText?_eq_none_iff (hfit : ∀ s ∈ sheets, s.NumeralsFit) :
    resolveText? ref sheets = .ok none ↔
      ofText? ref = none ∨ ∃ r, ofText? ref = some r ∧ ∀ s ∈ sheets, s.name ≠ r.sheetName := by
  unfold resolveText?
  cases hr : ofText? ref with
  | none => simp
  | some r =>
    cases hs : r.sheet? sheets with
    | none => simpa [resolve?, hs] using sheet?_eq_none_iff.mp hs
    | some s =>
      obtain ⟨v, -, hv⟩ := exists_answer (hfit s (List.mem_of_find?_eq_some hs)) r.cell
      have hname : ¬ ∀ s ∈ sheets, s.name ≠ r.sheetName := fun h => by
        cases hs.symm.trans (sheet?_eq_none_iff.mpr h)
      simpa [resolve?_eq hs hv] using hname

/-- **A text resolves to the cell that it names, and to nothing else.** Over sheets that sessions
can read it resolves to nothing just if it holds no reference or no sheet has the name. Otherwise
it resolves to what a new session on the first sheet of the name gives for the cell, which is
something. A name and a label are read back from the text that holds them, and every reference from
its own text. -/
theorem resolveText?_first (sheets : List Sheet) (hfit : ∀ s ∈ sheets, s.NumeralsFit) :
    (∀ ref, resolveText? ref sheets = .ok none ↔
      ofText? ref = none ∨ ∃ r, ofText? ref = some r ∧ ∀ s ∈ sheets, s.name ≠ r.sheetName) ∧
    (∀ ref r before s behind, ofText? ref = some r → sheets = before ++ s :: behind →
      s.name = r.sheetName → (∀ t ∈ before, t.name ≠ r.sheetName) → ∃ v, v ≠ .null ∧
        answer s (after s []) r.cell = .ok v ∧ resolveText? ref sheets = .ok (some v)) ∧
    (∀ name letters digits, name ≠ "" → '!' ∉ name.toList → letters ≠ [] → digits ≠ [] →
      (∀ c ∈ letters, Label.isLetter c = true) → (∀ c ∈ digits, Text.isDigit c = true) →
        ofText? ("sheet:" ++ name ++ "!" ++ String.ofList (letters ++ digits)) =
          some ⟨name, Text.upper (String.ofList (letters ++ digits))⟩) ∧
    ∀ ref r, ofText? ref = some r → ofText? r.text = some r := by
  refine ⟨fun ref => resolveText?_eq_none_iff hfit, ?_, ?_, fun ref r h =>
    (ofText?_valid h).ofText?_text⟩
  · rintro ref r before s behind hr rfl hs hbefore
    obtain ⟨v, hne, hv⟩ := exists_answer (hfit s (by simp)) r.cell
    refine ⟨v, hne, hv, ?_⟩
    rw [resolveText?, hr]
    exact resolve?_eq (sheet?_append hs hbefore) hv
  · intro name letters digits hne hname hletters hdigits hl hd
    exact ofText?_append hne hname hletters hdigits hl hd

/-- A sheet with a range and with nothing in cells, before another sheet of its name. -/
theorem resolveText?_first_namesakes :
    let first := Sheet.small [("A1", .text "=B1:B2"), ("B1", .null)]
    let second := Sheet.small [("A1", .int 5)]
    (∀ s ∈ [first, second], s.NumeralsFit) ∧ ofText? " sheet:Sheet!a1\n" = some ⟨"Sheet", "A1"⟩ ∧
      ∃ v, v ≠ .null ∧ answer first (after first []) "A1" = .ok v ∧
        resolveText? " sheet:Sheet!a1\n" [first, second] = .ok (some v) := by
  intro first second
  have hfit : ∀ s ∈ [first, second], s.NumeralsFit :=
    List.forall_mem_cons.mpr ⟨Sheet.numeralsFit_of_short (by decide),
      List.forall_mem_singleton.mpr (Sheet.numeralsFit_of_short (by decide))⟩
  have href : ofText? " sheet:Sheet!a1\n" = some ⟨"Sheet", "A1"⟩ := by decide
  exact ⟨hfit, href, (resolveText?_first [first, second] hfit).2.1 " sheet:Sheet!a1\n"
    ⟨"Sheet", "A1"⟩ [] first [second] href rfl rfl (by simp)⟩

end

end ValueRef

end Spreadsheet
