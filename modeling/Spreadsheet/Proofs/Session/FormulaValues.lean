import Spreadsheet.Proofs.Session.Grids
import Spreadsheet.Proofs.Session.NotedRequests
import Spreadsheet.Proofs.Session.Recomputation

/-! # What cells come to

A formula makes numbers and truth values of its own, and takes everything else that it comes to from
the cells that it asks for (`Derives.comesWithin`). So a property that numbers, truth values and
literals have is one of all values that a session finds, on any sheet and however its readings end
(`Performs.valuesWithin`), and of what grids show (`gridEntry_valuesWithin`). -/

namespace Spreadsheet

variable {p : Scalar → Prop}

/-! ### One formula -/

namespace Expr

/-- A condition comes to the value of one of its branches, or to 0. -/
theorem comesWithin_conditional (hnumber : ∀ n, p (.number n)) :
    ∀ es : List Expr, (∀ e ∈ es, ComesWithin p (e.evaluate Inquiry.cell).run) →
      ComesWithin p (evaluateConditional Inquiry.cell es).run
  | [], _ => hnumber _
  | [condition], _ => by
    rw [evaluateConditional]
    exact comesWithin_bind fun _ => hnumber _
  | [condition, yes], h => by
    rw [evaluateConditional]
    refine comesWithin_bind fun v => ?_
    split
    · exact h yes (by simp)
    · exact hnumber _
  | condition :: yes :: no :: _, h => by
    rw [evaluateConditional]
    refine comesWithin_bind fun v => ?_
    split
    · exact h yes (by simp)
    · exact h no (by simp)

end Expr

namespace Formula

open Spreadsheet.Expr

/-- **A derived tree comes to a list, or to a number, a truth value or the value of a cell.** -/
theorem Derives.comesWithin {level : Level} {ts : List Token} {e : Expr} (h : Derives level ts e)
    (hnumber : ∀ n, p (.number n)) (hbool : ∀ b, p (.bool b)) :
    ComesWithin p (e.evaluate Inquiry.cell).run := by
  induction h with
  | tighter _ _ ih | group _ ih => exact ih
  | binary _ _ _ _ =>
    rw [evaluate]
    exact comesWithin_bind fun _ => comesWithin_bind fun a => comesWithin_bind fun _ =>
      comesWithin_bind fun b => comesWithin_apply hnumber hbool _ a b
  | neg _ _ =>
    rw [evaluate]
    exact comesWithin_bind fun _ => comesWithin_bind fun _ => hnumber _
  | number | name => exact hnumber _
  | cell => exact fun _ hv => hv
  | range =>
    rw [evaluate, readRange]
    exact comesWithin_bind fun _ => comesWithin_bind fun _ => comesWithin_bind fun _ => trivial
  | call _ ih =>
    rw [evaluate]
    split
    · refine comesWithin_conditional hnumber _ fun e he => ?_
      obtain ⟨x, hx, rfl⟩ := List.mem_map.mp he
      exact ih x hx
    · exact comesWithin_bind fun vs => comesWithin_applyNamed hnumber _ vs

/-- The tokens of a text with a tree derive it, however long its numerals are. -/
theorem derives_of_ofText {text : String} {e : Expr} (h : ofText text = .ok e) :
    ∃ ts, Derives .comparison ts e := by
  obtain ⟨body, placed, -, htokens, s, hfold, hs⟩ := ofText_eq_ok.mp h
  obtain ⟨-, rfl⟩ := tokenize_eq_ok.mp htokens
  have hr := readable_of_mem_scan 0 0 (String.ofList body).toList
  exact ⟨_, derives_of_foldlM (List.forall_mem_map.mpr hr) hfold hs⟩

end Formula

/-- If the values of the cells have the property, so has the scalar that the inquiry comes to. -/
def Inquiry.Within (p : Scalar → Prop) : Inquiry (Except Fault Scalar) → Prop
  | .answer r => ∀ v, r = .ok v → p v
  | .ask _ next => ∀ v, p v → (next v).Within p

/-- What a cell takes from its formula is a number, a truth value or the value of a cell. -/
theorem Source.inquiry_within (src : Source) (c : String) (hnumber : ∀ n, p (.number n))
    (hbool : ∀ b, p (.bool b)) : (src.inquiry c).Within p := by
  have hall : Expr.ComesWithin p (Formula.inquiry (Session.formulaAt src c)) := by
    cases he : Formula.ofText (Session.formulaAt src c) with
    | error f =>
      rw [Formula.inquiry_of_fault he]
      trivial
    | ok e =>
      obtain ⟨ts, hts⟩ := Formula.derives_of_ofText he
      rw [Formula.inquiry_of_tree he]
      exact hts.comesWithin hnumber hbool
  unfold inquiry
  rw [Inquiry.map_eq_bind]
  generalize Formula.inquiry (Session.formulaAt src c) = q at hall
  induction q with
  | answer r =>
    intro v hv
    obtain rfl := Session.cellResult_eq_ok hv
    exact hall
  | ask l next ih => exact fun v hv => ih v (hall v hv)

namespace Session

variable {src : Source} {s t : State} {ran : List String}

/-! ### All that a session finds -/

/-- All values that are remembered have the property. -/
def ValuesWithin (p : Scalar → Prop) (s : State) : Prop :=
  ∀ (key : String) (v : Scalar), s.memo[key]? = some v → p v

/-- What an errand comes to has the property. -/
def Errand.Within (p : Scalar → Prop) : Errand → Prop
  | run q r => q.Within p → ∀ v, r = .ok v → p v
  | read _ r => ∀ v, r = .ok v → p v
  | _ => True

theorem ValuesWithin.remember (hs : ValuesWithin p s) {key : String} {v : Scalar} (hv : p v) :
    ValuesWithin p (s.remember key v) := by
  intro k w hw
  rw [State.remember, Std.HashMap.getElem?_insert] at hw
  split_ifs at hw
  · exact Option.some.inj hw ▸ hv
  · exact hs k w hw

theorem ValuesWithin.settle (hs : ValuesWithin p s) (hnumber : ∀ n, p (.number n)) {key : String}
    {r : Except Fault Scalar} (hr : ∀ v, r = .ok v → p v) : ValuesWithin p (settle key r s).2 := by
  cases r with
  | ok v =>
    refine hs.remember ?_
    split_ifs
    · exact hnumber _
    · exact hr v rfl
  | error f => exact hs.remember (s := s.fail key (.fault f)) (hnumber _)

/-- **All values that a session finds** have any property that numbers, truth values and literals
have. -/
theorem Performs.valuesWithin {errand : Errand} (h : Performs src errand s ran t)
    (hnumber : ∀ n, p (.number n)) (hbool : ∀ b, p (.bool b))
    (hliteral : ∀ l, ¬ src.HasFormula l → p (src.literal l))
    (hs : ValuesWithin p s) : ValuesWithin p t ∧ errand.Within p := by
  induction h with
  | nothing | stuck => exact ⟨hs, trivial⟩
  | answer => exact ⟨hs, fun hq => hq⟩
  | remembered hv => exact ⟨hs, fun w hw => Except.ok.inj hw ▸ hs _ _ hv⟩
  | startStuck => exact ⟨hs, fun w hw => by cases hw⟩
  | skip _ _ ih | broken _ ih => exact ⟨(ih hs).1, trivial⟩
  | askFails _ ih => exact ⟨(ih hs).1, fun _ w hw => by cases hw⟩
  | startFails _ ih => exact ⟨(ih hs).1, fun w hw => by cases hw⟩
  | visit _ _ ih ih' => exact ⟨(ih' (ih hs).1).1, trivial⟩
  | ask _ _ ih ih' =>
    obtain ⟨ht, hv⟩ := ih hs
    obtain ⟨hu, hr⟩ := ih' ht
    exact ⟨hu, fun hq => hr (hq _ (hv _ rfl))⟩
  | @compute key _ _ _ _ _ _ _ _ hlabels _ _ ih ih' =>
    obtain ⟨hu, hr⟩ := ih' (ih hs).1
    exact ⟨hu.settle hnumber (hr (src.inquiry_within key hnumber hbool)), trivial⟩
  | givesUp _ _ _ ih => exact ⟨(ih hs).1, trivial⟩
  | closed => exact ⟨hs, fun w hw => Except.ok.inj hw ▸ hnumber _⟩
  | literal _ _ hf =>
    exact ⟨hs.remember (hliteral _ hf), fun w hw => Except.ok.inj hw ▸ hliteral _ hf⟩
  | start _ hv ih =>
    have ht := (ih hs).1
    exact ⟨ht, fun w hw => Except.ok.inj hw ▸ ht _ _ hv⟩

/-- What a grid shows of a formula cell is the marker, or has any such property. -/
theorem gridEntry_valuesWithin (hlisted : ∀ l, src.HasFormula l → l ∈ src.formulas)
    (hnumber : ∀ n, p (.number n)) (hbool : ∀ b, p (.bool b))
    (hliteral : ∀ l, ¬ src.HasFormula l → p (src.literal l))
    (hempty : p (.text "")) {marker label : String} {v : Scalar} (hs : ValuesWithin p s)
    (h : Gives (gridEntry src marker label) s (.ok v) t) :
    ValuesWithin p t ∧ (src.HasFormula label → v = .text marker ∨ p v) := by
  obtain ⟨value, hvalue, rfl⟩ := h.of_gridEntry
  by_cases hform : src.HasFormula label
  · rw [shownValue_of_formula src hform] at hvalue
    obtain ⟨r, ran, t', hr, ht⟩ := read_performs hlisted label s
    obtain ⟨rfl, rfl⟩ := Prod.mk.inj (hr.symm.trans hvalue)
    obtain ⟨hwithin, hv⟩ := ht.valuesWithin hnumber hbool hliteral hs
    refine ⟨hwithin, fun _ => ?_⟩
    split_ifs
    · exact Or.inl rfl
    · exact Or.inr hempty
    · exact Or.inr (hv value rfl)
  · rw [shownValue_of_literal src hform] at hvalue
    obtain ⟨-, rfl⟩ := Prod.mk.inj hvalue
    exact ⟨hs, fun hl => absurd hl hform⟩

end Session

end Spreadsheet
