import Spreadsheet.Proofs.Session.Endings
import Spreadsheet.Proofs.Session.Literals
import Mathlib.Data.List.Forall2

/-! # What grids show

A grid that a session gives consists of entries, found one after the other, each in a state in which
what reading a cell keeps holds (`entries_of_gives_grid`). So it shows the literals of all cells in
it without formulas, whatever the other cells hold (`entry_of_literal`). Only a numeral that is too
long keeps a session from giving a grid (`answerGrid_fault`), and on sheets whose numerals fit it
gives one (`answerGrid_succeeds`). -/

namespace Spreadsheet

/-- What a grid shows of a cell without a formula: nothing as the empty text. -/
def Scalar.shownLiteral (v : Scalar) : Scalar :=
  if v.literalValue = .null then .text "" else v.literalValue

/-- The entry of a grid at a position. -/
def shownAt? (shown : List (List Scalar)) (p : Position) : Option Scalar :=
  shown[p.row]?.bind (·[p.column]?)

namespace Session

variable {src : Source} {s t u : State}

section

variable {α β : Type}

/-- A computation in two steps that succeeds does so in both. -/
theorem Gives.of_bind_ok {x : Run α} {f : α → Run β} {b : β} (h : Gives (x >>= f) s (.ok b) u) :
    ∃ a t, Gives x s (.ok a) t ∧ Gives (f a) t (.ok b) u := by
  unfold Gives at h ⊢
  rw [ExceptT.run_bind, StateT.run_bind] at h
  cases hx : StateT.run x.run s with
  | mk r t =>
    rw [hx] at h
    cases r with
    | ok a => exact ⟨a, t, rfl, h⟩
    | error f => cases (Prod.mk.inj h).1

/-- **A list of computations that succeeds** does so in each, in a state in which what they all keep
holds. What is found of each is so in the end, if it stays so in later states. -/
theorem forall₂_of_gives_mapM {p : State → Prop} {later : State → State → Prop}
    {rel : State → α → β → Prop} {f : α → Run β} (hrefl : ∀ s, later s s)
    (htrans : ∀ s t u, later s t → later t u → later s u)
    (hstays : ∀ s t a b, later s t → rel s a b → rel t a b)
    (hf : ∀ {a s b t}, p s → Gives (f a) s (.ok b) t → p t ∧ later s t ∧ rel t a b) :
    ∀ {l : List α} {s : State} {bs : List β} {t : State}, p s → Gives (l.mapM f) s (.ok bs) t →
      p t ∧ later s t ∧ List.Forall₂ (rel t) l bs
  | [], s, _, _, hs, h => by
    obtain ⟨hbs, rfl⟩ := Prod.mk.inj h
    cases hbs
    exact ⟨hs, hrefl s, .nil⟩
  | a :: l, _, _, _, hs, h => by
    rw [List.mapM_cons] at h
    obtain ⟨b, t, hb, h⟩ := h.of_bind_ok
    obtain ⟨bs, u, hbs, h⟩ := h.of_bind_ok
    obtain ⟨hcons, rfl⟩ := Prod.mk.inj h
    cases hcons
    obtain ⟨ht, hst, hab⟩ := hf hs hb
    obtain ⟨hu, htu, hrest⟩ := forall₂_of_gives_mapM hrefl htrans hstays hf ht hbs
    exact ⟨hu, htrans _ _ _ hst htu, .cons (hstays _ _ _ _ htu hab) hrest⟩

theorem exists_of_forall₂_range {n i : Nat} {rel : Nat → β → Prop} {bs : List β}
    (h : List.Forall₂ rel (List.range n) bs) (hi : i < n) : ∃ b, bs[i]? = some b ∧ rel i b := by
  have hlen : i < bs.length := by rw [← h.length_eq, List.length_range]; exact hi
  refine ⟨bs[i], List.getElem?_eq_getElem hlen, ?_⟩
  simpa using h.get (i := i) (by simpa using hi) hlen

end

/-! ### Entries -/

/-- **A grid consists of entries**, found one after the other. -/
theorem forall₂_of_gives_grid {p : State → Prop} {later : State → State → Prop}
    {rel : State → String → Scalar → Prop} {marker : String} {rows cols : Nat}
    (hrefl : ∀ s, later s s) (htrans : ∀ s t u, later s t → later t u → later s u)
    (hstays : ∀ s t label v, later s t → rel s label v → rel t label v)
    (hentry : ∀ {q : Position} {s v t}, p s → Gives (gridEntry src marker q.label) s (.ok v) t →
      p t ∧ later s t ∧ rel t q.label v)
    {shown : List (List Scalar)} (hs : p s)
    (h : Gives (grid src marker rows cols) s (.ok shown) t) : p t ∧
      List.Forall₂ (fun row values => List.Forall₂
        (fun column => rel t (Position.mk row column).label) (List.range cols) values)
          (List.range rows) shown := by
  have hvalues {row : Nat} {s : State} {values : List Scalar} {t : State} (hs : p s)
      (h : Gives ((List.range cols).mapM fun column =>
        gridEntry src marker (Position.mk row column).label) s (.ok values) t) :
      p t ∧ later s t ∧ List.Forall₂ (fun column => rel t (Position.mk row column).label)
        (List.range cols) values :=
    forall₂_of_gives_mapM hrefl htrans (fun s t column => hstays s t (Position.mk row column).label)
      (fun {column} => @hentry ⟨row, column⟩) hs h
  have hrow (s t : State) (row : Nat) (values : List Scalar) (hst : later s t)
      (h : List.Forall₂ (fun column => rel s (Position.mk row column).label) (List.range cols)
        values) :
      List.Forall₂ (fun column => rel t (Position.mk row column).label) (List.range cols) values :=
    h.imp fun _ _ => hstays s t _ _ hst
  obtain ⟨ht, -, hrows⟩ := forall₂_of_gives_mapM hrefl htrans hrow hvalues hs h
  exact ⟨ht, hrows⟩

theorem exists_shownAt? {rel : String → Scalar → Prop} {rows cols : Nat}
    {shown : List (List Scalar)} (h : List.Forall₂ (fun row values => List.Forall₂
      (fun column => rel (Position.mk row column).label) (List.range cols) values)
        (List.range rows) shown) {q : Position} (hrow : q.row < rows) (hcolumn : q.column < cols) :
    ∃ v, shownAt? shown q = some v ∧ rel q.label v := by
  obtain ⟨values, hvalues, hcolumns⟩ := exists_of_forall₂_range h hrow
  obtain ⟨v, hv, hrel⟩ := exists_of_forall₂_range hcolumns hcolumn
  exact ⟨v, by rw [shownAt?, hvalues]; exact hv, hrel⟩

/-- **A grid consists of entries**, each found in a state in which what they all keep holds. -/
theorem entries_of_gives_grid {p : State → Prop} {rel : String → Scalar → Prop} {marker : String}
    {rows cols : Nat} (hentry : ∀ {label s v t}, p s →
      Gives (gridEntry src marker label) s (.ok v) t → p t ∧ rel label v)
    {shown : List (List Scalar)} (hs : p s)
    (h : Gives (grid src marker rows cols) s (.ok shown) t) : p t ∧
      ∀ q : Position, q.row < rows → q.column < cols →
        ∃ v, shownAt? shown q = some v ∧ rel q.label v := by
  have hentry' {q : Position} {s : State} {v : Scalar} {t : State} (hs : p s)
      (h : Gives (gridEntry src marker q.label) s (.ok v) t) : p t ∧ True ∧ rel q.label v := by
    obtain ⟨ht, hrel⟩ := hentry hs h
    exact ⟨ht, trivial, hrel⟩
  obtain ⟨ht, hrows⟩ := forall₂_of_gives_grid (fun _ => trivial)
    (fun _ _ _ _ _ => trivial) (fun _ _ _ _ _ hrel => hrel) hentry' hs h
  exact ⟨ht, fun q hrow hcolumn => exists_shownAt? hrows hrow hcolumn⟩

/-- An entry is the marker if the cell has failed by then, and the value shown for it otherwise. -/
theorem Gives.of_gridEntry {marker label : String} {v : Scalar}
    (h : Gives (gridEntry src marker label) s (.ok v) t) : ∃ value,
      Gives (shownValue src label) s (.ok value) t ∧
        v = if t.errors.contains label then .text marker
          else if value = .null then .text "" else value := by
  obtain ⟨value, u, hvalue, h⟩ := h.of_bind_ok
  obtain ⟨now, u', hnow, h⟩ := h.of_bind_ok
  obtain ⟨hget, rfl⟩ := Prod.mk.inj hnow
  obtain rfl := Except.ok.inj hget
  split at h
  · next herr =>
    obtain ⟨hv, rfl⟩ := Prod.mk.inj h
    exact ⟨value, hvalue, (Except.ok.inj hv).symm.trans (if_pos herr).symm⟩
  · next herr =>
    obtain ⟨hv, rfl⟩ := Prod.mk.inj h
    rw [Content.isNull_scalar] at hv
    refine ⟨value, hvalue, (Except.ok.inj hv).symm.trans ?_⟩
    simp [herr]

/-- The entry of a cell without a formula is its literal, and cells without formulas stay as they
are. -/
theorem gridEntry_literalsKept {marker label : String} {v : Scalar} (hs : LiteralsKept src s)
    (h : Gives (gridEntry src marker label) s (.ok v) t) : LiteralsKept src t ∧
      (¬ src.HasFormula label → v = (src.cell label).shownLiteral) := by
  obtain ⟨value, hvalue, rfl⟩ := h.of_gridEntry
  by_cases hform : src.HasFormula label
  · rw [shownValue_of_formula src hform] at hvalue
    exact ⟨hvalue.literalsKept hs, fun hl => absurd hform hl⟩
  · rw [shownValue_of_literal src hform] at hvalue
    obtain ⟨hliteral, rfl⟩ := Prod.mk.inj hvalue
    obtain rfl := Except.ok.inj hliteral
    have herr : ¬ s.errors.contains label = true := fun h => by
      obtain ⟨e, he⟩ := OrderedMap.contains_iff.mp h
      exact hform (hs.errors label e he)
    exact ⟨hs, fun _ => if_neg herr⟩

/-- The grid that a session gives. -/
def answerGrid (sheet : Sheet) (marker : String) (s : State) :
    Except Fault (List (List Scalar)) :=
  (StateT.run (grid sheet.source marker sheet.rows sheet.cols).run s).1

/-- **A grid shows the literals** of the cells in it that hold no formulas. -/
theorem entry_of_literal {sheet : Sheet} {requests : List Request} {marker : String}
    {shown : List (List Scalar)}
    (h : answerGrid sheet marker (after sheet requests) = .ok shown) {q : Position}
    (hrow : q.row < sheet.rows) (hcolumn : q.column < sheet.cols)
    (hl : ¬ sheet.source.HasFormula q.label) :
    shownAt? shown q = some (sheet.source.cell q.label).shownLiteral := by
  obtain ⟨-, hentries⟩ := entries_of_gives_grid gridEntry_literalsKept
    (after_literalsKept sheet.source _ _ requests) (Prod.ext h rfl)
  obtain ⟨v, hv, hshown⟩ := hentries q hrow hcolumn
  rw [hv, hshown hl]

/-! ### Whether there is a grid -/

theorem ends_get {p : Fault → Prop} (s : State) : Ends src p (get : Run State) s :=
  ⟨.ok s, s, gives_get s, Advances.refl src s, fun f h => by cases h⟩

theorem ends_gridEntry {p : Fault → Prop} (hread : ∀ label s, Ends src p (read src label) s)
    (marker label : String) (s : State) : Ends src p (gridEntry src marker label) s := by
  have hvalue : Ends src p (shownValue src label) s := by
    by_cases hform : src.HasFormula label
    · rw [shownValue_of_formula src hform]
      exact hread label s
    · rw [shownValue_of_literal src hform]
      exact ends_pure _ s
  refine hvalue.bind fun v t _ => (ends_get t).bind fun now t _ => ?_
  split
  · exact ends_pure _ t
  · exact ends_pure _ t

theorem ends_grid {p : Fault → Prop} (hread : ∀ label s, Ends src p (read src label) s)
    (marker : String) (rows cols : Nat) (s : State) : Ends src p (grid src marker rows cols) s :=
  Ends.mapM (fun _ s => Ends.mapM (fun _ s => ends_gridEntry hread marker _ s) _ s) _ s

/-- **Only a numeral that is too long** keeps a session from giving a grid. -/
theorem answerGrid_fault {sheet : Sheet} {marker : String} {s : State} {f : Fault}
    (h : answerGrid sheet marker s = .error f) : Label.IsLongNumeral f := by
  have hread (label : String) (s : State) :
      Ends sheet.source Label.IsLongNumeral (read sheet.source label) s :=
    read_ends (fun _ => Sheet.mem_formulas_of_hasFormula) label s
  obtain ⟨r, t, hr, -, hlong⟩ := ends_grid hread marker sheet.rows sheet.cols s
  exact hlong f ((congrArg Prod.fst hr).symm.trans h)

/-- **On a sheet whose numerals fit** a session gives a grid in every state. -/
theorem answerGrid_succeeds {sheet : Sheet} (hfit : sheet.NumeralsFit) (marker : String)
    (s : State) : ∃ shown, answerGrid sheet marker s = .ok shown := by
  have hread (label : String) (s : State) :
      Ends sheet.source (fun _ => False) (read sheet.source label) s := by
    obtain ⟨v, t, hv, ht⟩ := read_does hfit.regular label s
    exact ⟨.ok v, t, hv, fun l => ht.grows.isSettled, fun f h => by cases h⟩
  obtain ⟨r, t, hr, -, hfalse⟩ := ends_grid hread marker sheet.rows sheet.cols s
  cases r with
  | ok shown => exact ⟨shown, congrArg Prod.fst hr⟩
  | error f => exact (hfalse f rfl).elim

end Session

end Spreadsheet
