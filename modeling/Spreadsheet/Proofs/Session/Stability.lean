import Spreadsheet.Proofs.Session.Grounds

/-! # What a session keeps

While a formula runs, a cycle may be recorded of its cell more than once, and a fault in place of
it. Once the cell is remembered, neither its value nor what is recorded of it changes any more
(`Does.final`). Between requests only remembered cells have something recorded of them, so whatever
is asked for next, everything found and recorded stays (`after_stable`).

* `Grounded.within`: what is known of a cell is a number, a truth value, or held by some cell. -/

namespace Spreadsheet

/-! ### Values -/

theorem Scalar.literalValue_ne_null {v : Scalar} (h : v ≠ .null) : v.literalValue ≠ .null := by
  cases v with
  | text s =>
    rw [literalValue]
    split
    · split_ifs <;> exact Scalar.noConfusion
    · exact Scalar.noConfusion
  | _ => exact h

theorem Source.literal_ne_null (src : Source) (l : String) : src.literal l ≠ .null := by
  rw [literal, Content.reading_scalar]
  split_ifs with h
  · simp
  · exact Scalar.literalValue_ne_null h

/-- A formula comes to a number, a truth value or the value of a cell that it asks for. -/
theorem Source.WellParsed.within {src : Source} (hsrc : src.WellParsed) {p : Scalar → Prop}
    (hnumber : ∀ n, p (.number n)) (hbool : ∀ b, p (.bool b)) {c : String} (hc : src.HasFormula c)
    {known : Knowledge} (hknown : ∀ l ∈ (src.inquiry c).asked known, ∀ v, known l = some v → p v)
    {v : Scalar} (h : (src.inquiry c).resolve known = some (.ok v)) : p v := by
  obtain ⟨x, hx, hcell⟩ := resolve_inquiry h
  obtain rfl := Session.cellResult_eq_ok hcell.symm
  rw [asked_inquiry] at hknown
  cases he : Formula.ofText (Session.formulaAt src c) with
  | error f => simp [Formula.inquiry_of_fault he, Inquiry.resolve] at hx
  | ok e =>
    rw [Formula.inquiry_of_tree he] at hx hknown
    have hall := Expr.Parsed.comesWithin hnumber hbool e (hsrc c hc e he)
    rcases hall.of_resolve hknown hx with ⟨w, hw, hp⟩ | ⟨items, hw⟩
    · cases hw
      exact hp
    · cases hw

namespace Session

variable {src : Source} {ahead : String → List String} {s t u : State} {key : String}

/-- **What is known of a cell** has any property that numbers, truth values and the contents of
cells have. -/
theorem Grounded.within {p : Scalar → Prop} (hsrc : src.WellParsed) (hs : Sound src s)
    (hnumber : ∀ n, p (.number n)) (hbool : ∀ b, p (.bool b)) (hliteral : ∀ l, p (src.literal l))
    {c : String} (h : Grounded src s c) : ∀ v, s.known c = some v → p v := by
  have hknown {l : String} (hl : ∀ v, s.memo[l]? = some v → p v) (v : Scalar)
      (hv : s.known l = some v) : p v := by
    rcases known_eq_some.mp hv with hv | ⟨-, rfl, -⟩
    · exact hl v hv
    · exact hnumber _
  induction h with
  | @literal l h => exact hknown fun v hv => hs.literal l v h hv ▸ hliteral l
  | @failed l h =>
    obtain ⟨e, he⟩ := h
    refine hknown fun v hv => ?_
    rcases (hs.failed l e he).2 with hm | ⟨hrun, -⟩
    · obtain rfl := Option.some.inj (hm.symm.trans hv)
      exact hnumber _
    · exact absurd (mem_of_memo hv) (hs.running l hrun).2
  | @formula c r hr _ ih =>
    refine hknown fun v hv => ?_
    by_cases hc : src.HasFormula c
    · obtain ⟨r', hr', hrecorded⟩ := hs.formula c v hc hv
      rcases he : s.errors.get? c with _ | _ | f <;> rw [he] at hrecorded
      · obtain rfl : r' = .ok v := hrecorded
        exact hsrc.within hnumber hbool hc ih hr'
      · exact hrecorded.2 ▸ hnumber _
      · exact hrecorded.2 ▸ hnumber _
    · exact hs.literal c v hc hv ▸ hliteral c

/-! ### What does not change -/

/-- **What is recorded of a remembered cell is final.** -/
theorem Does.final {task : Task} (h : Does src ahead task s t) {k : String} (hk : k ∈ s.memo) :
    t.memo[k]? = s.memo[k]? ∧ t.errors.get? k = s.errors.get? k := by
  induction h with
  | nothing | answer | remembered => exact ⟨rfl, rfl⟩
  | skip _ _ ih | start _ _ ih => exact ih hk
  | visit h _ ih ih' | ask h _ ih ih' =>
    obtain ⟨hm, he⟩ := ih' (h.grows.memo k hk)
    exact ⟨hm.trans (ih hk).1, he.trans (ih hk).2⟩
  | @compute key r s t u hkey hp hq ih ih' =>
    have hne : k ≠ key := fun h => (isSettled_eq_false_iff.mp hkey).2.1 (h ▸ hk)
    obtain ⟨hm, he⟩ := ih' (hp.grows.memo k hk)
    have hsettle : (settle key r u).2.memo[k]? = u.memo[k]? := by
      simp [memo_settle, Std.HashMap.getElem?_insert, Ne.symm hne]
    exact ⟨(hsettle.trans hm).trans (ih hk).1,
      ((errors_settle_of_ne r hne).trans he).trans (ih hk).2⟩
  | @closed key s hm _ =>
    have hne : k ≠ key := fun h => memo_none_iff.mp hm (h ▸ hk)
    exact ⟨rfl, OrderedMap.get?_insert_of_ne hne _ _⟩
  | @literal key s hm _ _ =>
    have hne : ¬ key = k := fun h => memo_none_iff.mp hm (h ▸ hk)
    exact ⟨by simp [State.remember, Std.HashMap.getElem?_insert, hne], rfl⟩

theorem Does.memo_mono {task : Task} (h : Does src ahead task s t) {l : String} {v : Scalar}
    (hv : s.memo[l]? = some v) : t.memo[l]? = some v :=
  (h.final (mem_of_memo hv)).1.trans hv

theorem Answers.final {answers : List (String × Scalar)} (h : Answers src ahead answers s t)
    {k : String} (hk : k ∈ s.memo) :
    t.memo[k]? = s.memo[k]? ∧ t.errors.get? k = s.errors.get? k := by
  induction h with
  | nil => exact ⟨rfl, rfl⟩
  | cons h _ ih =>
    obtain ⟨hm, he⟩ := ih (h.grows.memo k hk)
    exact ⟨hm.trans (h.final hk).1, he.trans (h.final hk).2⟩

/-! ### Between requests -/

/-- **A session between requests**: nothing runs, only formula cells that read as 0 have failed, and
every value is something. -/
structure AtRest (src : Source) (s : State) : Prop where
  idle : s.running = []
  failed : ∀ k e, s.errors.get? k = some e → src.HasFormula k ∧ s.memo[k]? = some (.int 0)
  filled : ∀ (k : String) (v : Scalar), s.memo[k]? = some v → v ≠ .null

/-- All that has been found and recorded in the first state is so in the second. -/
structure Keeps (s t : State) : Prop where
  memo : ∀ (k : String) (v : Scalar), s.memo[k]? = some v → t.memo[k]? = some v
  errors : ∀ k e, s.errors.get? k = some e → t.errors.get? k = some e

theorem AtRest.mem_of_failed (hs : AtRest src s) {k : String} {e : CellError}
    (h : s.errors.get? k = some e) : k ∈ s.memo :=
  mem_of_memo (hs.failed k e h).2

theorem Answers.keeps {answers : List (String × Scalar)} (h : Answers src ahead answers s t)
    (hs : AtRest src s) : Keeps s t where
  memo _ _ hv := (h.final (mem_of_memo hv)).1.trans hv
  errors _ _ he := (h.final (hs.mem_of_failed he)).2.trans he

section

variable {sheet : Sheet}

theorem answer_of_memo {label : String} {v : Scalar}
    (hv : s.memo[Label.normalize label]? = some v) : answer sheet s label = .ok v :=
  congrArg Prod.fst (gives_look_remembered hv)

theorem after_atRest (hfit : sheet.NumeralsFit) (requests : List Request) :
    AtRest sheet.source (after sheet requests) := by
  obtain ⟨hs, hrun⟩ := after_sound hfit requests
  refine ⟨hrun, fun k e he => ?_, fun k v hv => ?_⟩
  · obtain ⟨hk, hm⟩ := hs.failed k e he
    exact ⟨hk, hm.resolve_right fun h => by simp [hrun] at h⟩
  · have hgrounded := after_allGrounded hfit requests k (mem_of_memo hv)
    exact hgrounded.within (p := (· ≠ .null)) hfit.wellParsed hs (fun _ => Scalar.noConfusion)
      (fun _ => Scalar.noConfusion) (Source.literal_ne_null _) v (known_of_memo hv)

/-- What has been found and recorded stays, whatever is asked for later. -/
theorem after_keeps (hfit : sheet.NumeralsFit) (requests later : List Request) :
    Keeps (after sheet requests) (after sheet (requests ++ later)) := by
  obtain ⟨answers, h⟩ := answers_append hfit.regular requests later
  exact h.keeps (after_atRest hfit requests)

/-- What a cell has been read as is remembered. -/
theorem memo_after_cell (hfit : sheet.NumeralsFit) (requests : List Request) (label : String) :
    ∃ v, answer sheet (after sheet requests) label = .ok v ∧
      (after sheet (requests ++ [.cell label])).memo[Label.normalize label]? = some v := by
  obtain ⟨hs, hrun⟩ := after_sound hfit requests
  obtain ⟨v, hv, ht⟩ := gives_read_after hfit.regular requests label
  exact ⟨v, congrArg Prod.fst hv,
    mem_memo_of_known (ht.grows.running.trans hrun) (ht.sound hs).2.2⟩

/-- **A session is stable.** After any requests it is at rest; the next request keeps all that has
been found and recorded, and a value that a cell has been read as is read ever after. -/
theorem after_stable (hfit : sheet.NumeralsFit) (requests : List Request) :
    AtRest sheet.source (after sheet requests) ∧
      (∀ request, Keeps (after sheet requests) (after sheet (requests ++ [request]))) ∧
      ∀ label, ∃ v, answer sheet (after sheet requests) label = .ok v ∧
        ∀ later label', Label.normalize label' = Label.normalize label →
          answer sheet (after sheet (requests ++ .cell label :: later)) label' = .ok v := by
  refine ⟨after_atRest hfit requests, fun request => after_keeps hfit requests [request],
    fun label => ?_⟩
  obtain ⟨v, hv, hm⟩ := memo_after_cell hfit requests label
  refine ⟨v, hv, fun later label' hlabel => ?_⟩
  have hkeeps := after_keeps hfit (requests ++ [.cell label]) later
  rw [List.append_assoc, List.singleton_append] at hkeeps
  refine answer_of_memo ?_
  rw [hlabel]
  exact hkeeps.memo _ v hm

/-- A request for a malformed range is among those of the session. -/
theorem after_stable_looped : looped.NumeralsFit ∧
    AtRest looped.source (after looped [.cell "b1", .range "A0" "B1"]) ∧
    (∀ request, Keeps (after looped [.cell "b1", .range "A0" "B1"])
      (after looped ([.cell "b1", .range "A0" "B1"] ++ [request]))) ∧
    ∀ label, ∃ v, answer looped (after looped [.cell "b1", .range "A0" "B1"]) label = .ok v ∧
      ∀ later label', Label.normalize label' = Label.normalize label →
        answer looped (after looped ([.cell "b1", .range "A0" "B1"] ++ .cell label :: later))
          label' = .ok v := by
  have hfit : looped.NumeralsFit := Sheet.numeralsFit_of_short (by decide)
  exact ⟨hfit, after_stable hfit _⟩

end

end Session

end Spreadsheet
