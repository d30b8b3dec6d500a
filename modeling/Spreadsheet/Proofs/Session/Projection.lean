import Spreadsheet.Proofs.Keys
import Spreadsheet.Proofs.Session.FormulaValues
import Spreadsheet.Proofs.Session.Grounds
import Spreadsheet.Proofs.Session.Stability

/-! # Grids and the state after them

The entries of a grid are found one after the other, and reading a cell may make others fail. But
what is recorded of a cell that is remembered is final, and no failure is taken back (`Later`), on
any sheet and however its readings end. A formula cell that an entry shows has failed or is
remembered then, so each entry still shows its cell as the session has it when the grid is done.

* `Later`: what readings leave as it is.
* `Shown`: an entry and the state of the session.

Main statement: `answerGrid_shows`. -/

namespace Spreadsheet.Session

variable {src : Source} {s t u : State} {key marker label : String} {ran : List String}

/-! ### What readings leave as it is -/

/-- **What is recorded of a remembered cell is final**, and failures are not taken back. -/
structure Later (s t : State) : Prop where
  memo : ∀ k ∈ s.memo, t.memo[k]? = s.memo[k]?
  errors : ∀ k ∈ s.memo, t.errors.get? k = s.errors.get? k
  failed : ∀ k, s.Failed k → t.Failed k

namespace Later

theorem refl (s : State) : Later s s := ⟨fun _ _ => rfl, fun _ _ => rfl, fun _ h => h⟩

theorem mem_memo (h : Later s t) {k : String} (hk : k ∈ s.memo) : k ∈ t.memo := by
  obtain ⟨v, hv⟩ := exists_of_mem_memo hk
  exact mem_of_memo ((h.memo k hk).trans hv)

theorem trans (h : Later s t) (h' : Later t u) : Later s u where
  memo k hk := (h'.memo k (h.mem_memo hk)).trans (h.memo k hk)
  errors k hk := (h'.errors k (h.mem_memo hk)).trans (h.errors k hk)
  failed k hk := h'.failed k (h.failed k hk)

/-- A cell that is not remembered may be. -/
theorem remember (h : Later s t) (hkey : key ∉ s.memo) (v : Scalar) :
    Later s (t.remember key v) where
  memo k hk := by
    have hne : key ≠ k := fun he => hkey (he ▸ hk)
    rw [← h.memo k hk, State.remember, Std.HashMap.getElem?_insert, if_neg (by simpa using hne)]
  errors := h.errors
  failed := h.failed

theorem fail (h : Later s t) (hkey : key ∉ s.memo) (e : CellError) : Later s (t.fail key e) where
  memo := h.memo
  errors k hk := by
    have hne : k ≠ key := fun he => hkey (he ▸ hk)
    exact (OrderedMap.get?_insert_of_ne hne _ _).trans (h.errors k hk)
  failed k hk := (h.failed k hk).fail key e

theorem settle (h : Later s t) (hkey : key ∉ s.memo) (r : Except Fault Scalar) :
    Later s (settle key r t).2 := by
  cases r with
  | ok v => exact h.remember hkey _
  | error f => exact (h.fail hkey _).remember hkey _

end Later

/-- **So it is with all that a session does.** -/
theorem Performs.later {errand : Errand} (h : Performs src errand s ran t) : Later s t := by
  induction h with
  | nothing | answer | remembered | startStuck => exact Later.refl _
  | skip _ _ ih | broken _ ih | askFails _ ih | start _ _ ih | startFails _ ih => exact ih
  | visit _ _ ih ih' | ask _ _ ih ih' => exact ih.trans ih'
  | stuck => exact ⟨fun _ _ => rfl, fun _ _ => rfl, fun _ h => h⟩
  | @compute key _ r _ _ t _ u hkey _ _ _ ih ih' =>
    have hrun := ih.trans ih'
    have hmarked : Later _ u := ⟨hrun.memo, hrun.errors, hrun.failed⟩
    have hsettled := hmarked.settle (isSettled_eq_false_iff.mp hkey).2.1 r
    exact ⟨hsettled.memo, hsettled.errors, hsettled.failed⟩
  | givesUp _ _ _ ih => exact ⟨ih.memo, ih.errors, ih.failed⟩
  | closed hm => exact (Later.refl _).fail (memo_none_iff.mp hm) _
  | literal hm => exact (Later.refl _).remember (memo_none_iff.mp hm) _

/-! ### Entries -/

/-- **What a grid shows of a cell**: the marker if the cell has failed, the value that it reads as
if it holds a formula, and else its literal. -/
inductive Shown (src : Source) (marker : String) (s : State) (label : String) : Scalar → Prop
  | failed (h : s.Failed label) : Shown src marker s label (.text marker)
  | value {v} (hform : src.HasFormula label) (hno : ¬ s.Failed label)
      (hv : s.memo[label]? = some v) : Shown src marker s label v
  | literal (hform : ¬ src.HasFormula label) :
      Shown src marker s label (src.cell label).shownLiteral

theorem Shown.later {v : Scalar} (h : Shown src marker s label v) (hst : Later s t) :
    Shown src marker t label v := by
  cases h with
  | failed h => exact .failed (hst.failed label h)
  | value hform hno hv =>
    have hmem := mem_of_memo hv
    refine .value hform ?_ ((hst.memo label hmem).trans hv)
    rwa [State.Failed, hst.errors label hmem]
  | literal hform => exact .literal hform

/-- What entries rely on: cells without formulas do not fail, and all values are something. -/
structure Showable (src : Source) (s : State) : Prop where
  literals : LiteralsKept src s
  filled : ValuesWithin (· ≠ .null) s

theorem Showable.not_failed (hs : Showable src s) (hform : ¬ src.HasFormula label) :
    ¬ s.errors.contains label = true := by
  intro h
  obtain ⟨e, he⟩ := OrderedMap.contains_iff.mp h
  exact hform (hs.literals.errors label e he)

theorem Performs.filled {errand : Errand} (h : Performs src errand s ran t)
    (hs : ValuesWithin (· ≠ .null) s) : ValuesWithin (· ≠ .null) t :=
  (h.valuesWithin (fun _ => Scalar.noConfusion) (fun _ => Scalar.noConfusion)
    (fun _ _ => src.literal_ne_null _) hs).1

theorem after_showable (sheet : Sheet) (requests : List Request) :
    Showable sheet.source (after sheet requests) := by
  obtain ⟨ran, hreadings, -⟩ := readings_after sheet requests le_rfl le_rfl
  exact ⟨after_literalsKept _ _ _ requests,
    hreadings.invariant Performs.filled fun key v h => by simp at h⟩

/-- A formula cell that has been read has failed or is remembered. -/
theorem Performs.read_cases {v : Scalar} (h : Performs src (.read key (.ok v)) s ran t)
    (hform : src.HasFormula key) : t.Failed key ∨ t.memo[key]? = some v := by
  cases h with
  | remembered hv => exact Or.inr hv
  | closed => exact Or.inl ⟨.cycle, OrderedMap.get?_insert_self _ _ _⟩
  | literal _ _ hno => exact absurd hform hno
  | start _ hv => exact Or.inr hv

/-- **An entry shows its cell** as the session has it then. -/
theorem gridEntry_shown (hlisted : ∀ l, src.HasFormula l → l ∈ src.formulas) {v : Scalar}
    (hlabel : Label.normalize label = label) (hs : Showable src s)
    (h : Gives (gridEntry src marker label) s (.ok v) t) :
    Showable src t ∧ Later s t ∧ Shown src marker t label v := by
  obtain ⟨value, hvalue, rfl⟩ := h.of_gridEntry
  by_cases hform : src.HasFormula label
  · rw [shownValue_of_formula src hform] at hvalue
    obtain ⟨r, ran, t', hr, ht⟩ := read_performs hlisted label s
    obtain ⟨rfl, rfl⟩ := Prod.mk.inj (hr.symm.trans hvalue)
    rw [hlabel] at ht
    have hshowable : Showable src t' := ⟨hr.literalsKept hs.literals, ht.filled hs.filled⟩
    refine ⟨hshowable, ht.later, ?_⟩
    by_cases hfailed : t'.Failed label
    · rw [if_pos (OrderedMap.contains_iff.mpr hfailed)]
      exact .failed hfailed
    · have hv := (ht.read_cases hform).resolve_left hfailed
      rw [if_neg (fun h => hfailed (OrderedMap.contains_iff.mp h)),
        if_neg (hshowable.filled label value hv)]
      exact .value hform hfailed hv
  · rw [shownValue_of_literal src hform] at hvalue
    obtain ⟨hliteral, rfl⟩ := Prod.mk.inj hvalue
    obtain rfl := Except.ok.inj hliteral
    refine ⟨hs, Later.refl s, ?_⟩
    rw [if_neg (hs.not_failed hform)]
    exact .literal hform

/-! ### Grids -/

theorem normalize_label (q : Position) : Label.normalize q.label = q.label :=
  (Label.isKey_label q).normalize

/-- **A grid shows its cells** as the session has them when it is done. -/
theorem grid_shown (hlisted : ∀ l, src.HasFormula l → l ∈ src.formulas) {rows cols : Nat}
    {shown : List (List Scalar)} (hs : Showable src s)
    (h : Gives (grid src marker rows cols) s (.ok shown) t) :
    Showable src t ∧ List.Forall₂ (fun row values => List.Forall₂
      (fun column => Shown src marker t (Position.mk row column).label) (List.range cols) values)
        (List.range rows) shown := by
  have hentry {q : Position} {s : State} {v : Scalar} {t : State} (hs : Showable src s)
      (h : Gives (gridEntry src marker q.label) s (.ok v) t) :
      Showable src t ∧ Later s t ∧ Shown src marker t q.label v :=
    gridEntry_shown hlisted (normalize_label q) hs h
  exact forall₂_of_gives_grid Later.refl (fun _ _ _ => Later.trans)
    (fun _ _ _ _ hst h => h.later hst) hentry hs h

/-- What an entry shows, by what the session has recorded and gives. -/
theorem Shown.entry {sheet : Sheet} {v : Scalar} (h : Shown sheet.source marker s label v)
    (hs : Showable sheet.source s) (hlabel : Label.normalize label = label) :
    if s.errors.contains label then v = .text marker
    else if (sheet.source.cell label).isFormula then answer sheet s label = .ok v
    else v = (sheet.source.cell label).shownLiteral := by
  cases h with
  | failed hfailed => rw [if_pos (OrderedMap.contains_iff.mpr hfailed)]
  | value hform hno hv =>
    rw [if_neg fun h => hno (OrderedMap.contains_iff.mp h),
      if_pos (show (sheet.source.cell label).isFormula = true from hform)]
    exact answer_of_memo (hlabel.symm ▸ hv)
  | literal hform =>
    rw [if_neg (hs.not_failed hform),
      if_neg (show ¬ (sheet.source.cell label).isFormula = true from hform)]

theorem after_grid {sheet : Sheet} {requests : List Request} {r : Except Fault (List (List Scalar))}
    (h : Gives (grid sheet.source marker sheet.rows sheet.cols) (after sheet requests) r t) :
    after sheet (requests ++ [.grid marker]) = t := by
  rw [after_append, List.foldl_cons, List.foldl_nil]
  cases r with
  | ok shown => exact congrArg Prod.snd (h.bind (gives_pure () t))
  | error f => exact congrArg Prod.snd h.bind_error

/-- **A grid marks exactly the failed cells.** If a session gives a grid, this has the rows and
columns of the sheet, and in the state that it leaves the session in, the entry of a cell is the
marker if the cell has failed, what the cell reads as if it holds a formula, and else its literal,
nothing as the empty text. -/
theorem answerGrid_shows {sheet : Sheet} {requests : List Request} {shown : List (List Scalar)}
    (h : answerGrid sheet marker (after sheet requests) = .ok shown) :
    shown.length = sheet.rows ∧ (∀ values ∈ shown, values.length = sheet.cols) ∧
      ∀ q : Position, q.row < sheet.rows → q.column < sheet.cols → ∃ v, shownAt? shown q = some v ∧
        if (after sheet (requests ++ [.grid marker])).errors.contains q.label then v = .text marker
        else if (sheet.source.cell q.label).isFormula then
          answer sheet (after sheet (requests ++ [.grid marker])) q.label = .ok v
        else v = (sheet.source.cell q.label).shownLiteral := by
  have hgives : Gives (grid sheet.source marker sheet.rows sheet.cols) (after sheet requests)
      (.ok shown) _ := Prod.ext h rfl
  rw [after_grid hgives]
  obtain ⟨ht, hrows⟩ :=
    grid_shown (fun _ => Sheet.mem_formulas_of_hasFormula) (after_showable sheet requests) hgives
  have hlength : shown.length = sheet.rows := by rw [← hrows.length_eq, List.length_range]
  refine ⟨hlength, fun values hvalues => ?_, fun q hrow hcolumn => ?_⟩
  · obtain ⟨⟨row, hrow⟩, rfl⟩ := List.get_of_mem hvalues
    have hcolumns := hrows.get (by rwa [List.length_range, ← hlength]) hrow
    rw [← hcolumns.length_eq, List.length_range]
  · obtain ⟨v, hv, hshown⟩ := exists_shownAt? hrows hrow hcolumn
    exact ⟨v, hv, hshown.entry ht (normalize_label q)⟩

theorem answerGrid_shows_looped : ∃ shown,
    answerGrid looped defaultMarker (after looped [.cell "b1"]) = .ok shown ∧
      shown.length = 3 ∧ (∀ values ∈ shown, values.length = 3) ∧
        ∀ q : Position, q.row < 3 → q.column < 3 → ∃ v, shownAt? shown q = some v ∧
          if (after looped [.cell "b1", .grid defaultMarker]).errors.contains q.label then
            v = .text defaultMarker
          else if (looped.source.cell q.label).isFormula then
            answer looped (after looped [.cell "b1", .grid defaultMarker]) q.label = .ok v
          else v = (looped.source.cell q.label).shownLiteral := by
  have hfit : looped.NumeralsFit := Sheet.numeralsFit_of_short (by decide)
  obtain ⟨shown, h⟩ := answerGrid_succeeds hfit defaultMarker (after looped [.cell "b1"])
  exact ⟨shown, h, answerGrid_shows h⟩

end Spreadsheet.Session
