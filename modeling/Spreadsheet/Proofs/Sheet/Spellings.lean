import Spreadsheet.Proofs.Session.Literals
import Spreadsheet.Proofs.Sheet.SamePosition
import Spreadsheet.Proofs.Sheet.Unchecked

/-! # Cells under every spelling of their labels

Cells are kept under labels in one spelling, and asked for in any: with blanks around the label and
with its letters in either case (`Label.Spells`). The spelling under which a cell is kept is made of
all of them (`Label.Spells.normalize`), so however a sheet has been changed, it finds just the cell
that is meant, and so does every session on it (`Unchecked.Reached.finds`). -/

namespace Spreadsheet

/-! ### Spellings -/

namespace Text

theorem trimEnd_append_of_blank {cs behind : List Char} (h : ∀ c ∈ behind, isBlank c = true) :
    trimEnd (cs ++ behind) = trimEnd cs := by
  rw [trimEnd, List.reverse_append, List.dropWhile_append_of_pos, trimEnd]
  simpa using h

/-- Blanks around a text are left out. -/
theorem trimList_append_of_blank {before cs behind : List Char}
    (hbefore : ∀ c ∈ before, isBlank c = true) (hbehind : ∀ c ∈ behind, isBlank c = true) :
    trimList (before ++ (cs ++ behind)) = trimList cs := by
  rw [trimList, List.dropWhile_append_of_pos hbefore, List.dropWhile_append, trimList]
  split
  · next hnil =>
    rw [List.isEmpty_iff.mp hnil, List.dropWhile_eq_nil_iff.mpr hbehind]
  · exact trimEnd_append_of_blank hbehind

end Text

namespace Label

/-- **The text spells the label** in a way of its own: there may be blanks around it, and its ASCII
letters may be in the other case. -/
def Spells (l k : String) : Prop :=
  ∃ before cs behind, l.toList = before ++ (cs ++ behind) ∧
    (∀ c ∈ before, Text.isBlank c = true) ∧ (∀ c ∈ behind, Text.isBlank c = true) ∧
    cs.map Char.toUpper = k.toList.map Char.toUpper

section

variable {c : Char} {l k : String} {cs letters digits : List Char}

theorem isLetter_of_toUpper (h : c.toUpper.isUpper = true) : isLetter c = true :=
  (toUpper_eq_or c).elim id fun heq => isLetter_of_isUpper (heq ▸ h)

theorem toUpper_of_isDigit (h : Text.isDigit c = true) : c.toUpper = c :=
  toUpper_of_not_lower (by have := Text.toNat_of_isDigit h; omega)

theorem toUpper_eq_self_of_isDigit (h : Text.isDigit c.toUpper = true) : c.toUpper = c := by
  refine (toUpper_eq_or c).resolve_left fun hletter => ?_
  have hupper := isLetter_of_isUpper (isUpper_toUpper hletter)
  simp [Text.isLetter_of_isDigit h] at hupper

theorem map_toUpper_eq_self (h : ∀ c ∈ cs, c.toUpper = c) : cs.map Char.toUpper = cs :=
  (List.map_congr_left h).trans (List.map_id cs)

theorem IsKey.map_toUpper (h : IsKey k) : k.toList.map Char.toUpper = k.toList := by
  obtain ⟨letters, digits, rfl, -, -, hl, hd⟩ := h
  refine map_toUpper_eq_self fun c hc => ?_
  rw [String.toList_ofList] at hc
  rcases List.mem_append.mp hc with hc | hc
  · exact toUpper_of_plain (Or.inl (hl c hc))
  · exact toUpper_of_isDigit (hd c hc)

/-- Letters and digits in the case of a label under which cells are kept. -/
theorem exists_parts_of_map_toUpper (h : cs.map Char.toUpper = letters ++ digits)
    (hl : ∀ c ∈ letters, c.isUpper = true) (hd : ∀ c ∈ digits, Text.isDigit c = true) :
    ∃ front, cs = front ++ digits ∧ front.map Char.toUpper = letters ∧
      ∀ c ∈ front, isLetter c = true := by
  obtain ⟨front, back, rfl, rfl, rfl⟩ := List.map_eq_append_iff.mp h
  have hback : back.map Char.toUpper = back :=
    map_toUpper_eq_self fun c hc => toUpper_eq_self_of_isDigit (hd _ (List.mem_map_of_mem hc))
  refine ⟨front, by rw [hback], rfl, fun c hc => ?_⟩
  exact isLetter_of_toUpper (hl _ (List.mem_map_of_mem hc))

/-- **Every spelling of a label is kept as the label.** -/
theorem Spells.normalize (h : Spells l k) (hk : IsKey k) : Label.normalize l = k := by
  obtain ⟨before, cs, behind, hl, hbefore, hbehind, hcs⟩ := h
  rw [hk.map_toUpper] at hcs
  obtain ⟨letters, digits, rfl, hletters, hdigits, hupper, hd⟩ := hk
  rw [String.toList_ofList] at hcs
  obtain ⟨front, rfl, rfl, hfront⟩ := exists_parts_of_map_toUpper hcs hupper hd
  rw [Label.normalize, Text.trim, hl, Text.trimList_append_of_blank hbefore hbehind,
    trimList_of_parts (by simpa using hletters) hdigits hfront hd, Text.upper,
    String.toList_ofList, Text.upperList_append, upperList_of_isLetter hfront,
    upperList_of_isDigit hd]

end

end Label

/-! ### Cells -/

/-- **A cell is found** under every spelling of the label that it is kept under. -/
theorem Sheet.Kept.get?_normalize {α : Type} {cells : OrderedMap String α} {l k : String} {v : α}
    (h : Sheet.Kept cells) (hmem : (k, v) ∈ cells) (hl : Label.Spells l k) :
    cells.get? (Label.normalize l) = some v := by
  rw [hl.normalize (h.isKey k (OrderedMap.mem_keys.mpr ⟨v, hmem⟩))]
  exact (OrderedMap.get?_eq_some_iff h.nodup).mpr hmem

namespace Session

variable {γ : Type} [Content γ]

/-- **Sessions over the cells of a grid of `rows` by `cols` find the cell** under the label as it is
spelled: reading it is reading the cell kept under `k` with the content `v`. A literal reads as its
value at any time. A formula is run for the cell, unless it is running or its value is known. -/
structure Finds (src : Source γ) (rows cols : Nat) (l k : String) (v : γ) : Prop where
  same : read src l = read src k
  literal : Content.isFormula v = false → ∀ requests,
    (StateT.run (read src l).run (afterOver src rows cols requests)).1 = .ok (Content.reading v)
  formula : Content.isFormula v = true → ∀ state : State γ,
    state.memo[k]? = none → k ∉ state.running →
      StateT.run (read src l).run state =
        StateT.run (start src src.formulas.length k (Content.textIn v)).run state

theorem finds_of_source {src : Source γ} {l k : String} {v : γ} (hk : Label.IsKey k)
    (hl : Label.Spells l k) (hv : src.cell k = v) (rows cols : Nat) :
    Finds src rows cols l k v := by
  have hnormal := hl.normalize hk
  refine ⟨read_congr (hnormal.trans hk.normalize.symm), fun hliteral requests => ?_,
    fun hformula state hmemo hrunning => ?_⟩
  · have hform : ¬ src.HasFormula (Label.normalize l) := by
      rw [hnormal, Source.HasFormula, hv, hliteral]
      exact Bool.false_ne_true
    obtain ⟨t, ht⟩ := gives_read_literal (after_literalsKept src rows cols requests) hform
    rw [(ht : StateT.run _ _ = _), hnormal, Source.literal, hv]
  · have hsettled : isSettled src state (Label.normalize l) = false := by
      rw [isSettled_eq_false_iff, hnormal, Source.HasFormula, hv]
      exact ⟨hformula, memo_none_iff.mp hmemo, hrunning⟩
    have htext : formulaAt src (Label.normalize l) = Content.textIn v := by
      rw [formulaAt, hnormal, hv]
    have hrun := gives_look_compute hsettled (rfl : Gives (start src src.formulas.length
      (Label.normalize l) (formulaAt src (Label.normalize l))) state _ _)
    rwa [htext, hnormal] at hrun

end Session

namespace Sheet

/-- Sessions find cells that are kept. -/
theorem Kept.session_finds {γ : Type} [Content γ] {cells : OrderedMap String γ} {l k : String} {v : γ}
    (h : Kept cells) (hmem : (k, v) ∈ cells) (hl : Label.Spells l k) (rows cols : Nat) :
    Session.Finds (.ofCells cells) rows cols l k v := by
  refine Session.finds_of_source (h.isKey k (OrderedMap.mem_keys.mpr ⟨v, hmem⟩)) hl ?_ rows cols
  rw [Source.cell_ofCells h.nodup, (OrderedMap.get?_eq_some_iff h.nodup).mpr hmem,
    Option.getD_some]

namespace Unchecked

/-- **However a sheet is read and changed, its cells are found.** They are kept under labels in
their normal spelling, under none twice; each holds a scalar, or a list or a map that has been
brought; and the sheet and every session on it find each under every spelling of its label. If all
hold scalars, so do the sheet of scalars and the sessions on it. -/
theorem Reached.finds {brought : Value → Prop} {s : Unchecked} (hs : Reached brought s) :
    Kept s.cells ∧ (∀ x ∈ s.cells, Admits brought x.2) ∧
      (∀ k v l, (k, v) ∈ s.cells → Label.Spells l k →
        s.get l = v ∧ Session.Finds s.source s.rows s.cols l k v) ∧
        ∀ t, s.sheet? = some t → ∀ k v l, (k, v) ∈ t.cells → Label.Spells l k →
          t.get l = v ∧ Session.Finds t.source t.rows t.cols l k v := by
  refine ⟨hs.kept, hs.admitted, fun k v l hmem hl => ?_, fun t ht k v l hmem hl => ?_⟩
  · refine ⟨?_, hs.kept.session_finds hmem hl s.rows s.cols⟩
    rw [get, hs.kept.get?_normalize hmem hl, Option.getD_some]
  · obtain rfl := sheet?_eq_some_iff.mp ht
    have hkept : Kept t.cells := kept_map.mp hs.kept
    refine ⟨?_, hkept.session_finds hmem hl t.rows t.cols⟩
    rw [Sheet.get, hkept.get?_normalize hmem hl, Option.getD_some]

/-- A sheet with a formula and a text that looks like one. -/
def twoCells : Sheet :=
  .small [("A1", .text "=B1+1"), ("B1", .text "'=A1")]

/-- The sheet with a grid that brings a map. -/
def withMap : Unchecked :=
  (ofSheet twoCells).withGrid [[.map [(.text "v", .int 1)]]]

theorem reached_withMap : Reached (fun _ => True) withMap :=
  .withGrid (@Reached.read _ twoCells.toWire twoCells rfl) fun _ _ _ _ _ => Or.inr trivial

theorem mem_withMap : ("A1", .map [(.text "v", .int 1)]) ∈ withMap.cells := by
  have hA : (Position.mk 0 0).label = "A1" := Label.label_of_column_lt (by decide)
  exact mem_cellsOf.mpr ⟨⟨0, 0⟩, by decide, by decide, hA.symm, rfl⟩

theorem Reached.finds_spelled : Reached (fun _ => True) withMap ∧ Label.Spells " a1\t" "A1" ∧
    Kept withMap.cells ∧ withMap.get " a1\t" = .map [(.text "v", .int 1)] ∧
      Session.Finds withMap.source withMap.rows withMap.cols " a1\t" "A1"
        (.map [(.text "v", .int 1)]) := by
  have hspells : Label.Spells " a1\t" "A1" :=
    ⟨[' '], ['a', '1'], ['\t'], rfl, List.forall_mem_singleton.mpr rfl,
      List.forall_mem_singleton.mpr rfl, rfl⟩
  obtain ⟨hkept, -, hfinds, -⟩ := Reached.finds reached_withMap
  exact ⟨reached_withMap, hspells, hkept, hfinds "A1" _ _ mem_withMap hspells⟩

/-- **A grid may bring a map into a cell**, as the data of sheets has them. -/
theorem not_reached_scalar : ¬ ∀ s, Reached (fun _ => True) s →
    ∀ x ∈ s.cells, ∀ entries, x.2 ≠ .map entries :=
  fun h => h withMap reached_withMap _ mem_withMap _ rfl

end Unchecked

end Sheet

end Spreadsheet
