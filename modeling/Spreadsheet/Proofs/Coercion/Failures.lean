import Spreadsheet.Proofs.Coercion.Texts
import Spreadsheet.Proofs.Formula.Inquiry

/-! # When a value is no number

Values are taken for numbers, and lists for the numbers in them, and this fails for one reason only:
a text is a numeral of base 16, 8 or 2 whose number is too great for the format (`TooGreat`). Then it
does fail (`toNumber_failsIff`, `numbers_failsIff`), and so does a formula that refers to such a text
(`coercion_failsIff`). -/

namespace Spreadsheet

open Binary64

/-! ### Failing for one reason -/

/-- The result is a failure for want of a floating point number if the condition holds, and no
failure otherwise. -/
structure FailsIff {α : Type} (bad : Prop) (r : Except Fault α) : Prop where
  returns : ¬ bad → ∃ a, r = .ok a
  fails : bad → r = .error (.overflow .integer)

namespace FailsIff

variable {α β : Type} {p q : Prop} {r : Except Fault α} {f : α → Except Fault β}

theorem ok (a : α) : FailsIff False (Except.ok a : Except Fault α) :=
  ⟨fun _ => ⟨a, rfl⟩, False.elim⟩

theorem congr (h : FailsIff p r) (hpq : p ↔ q) : FailsIff q r :=
  ⟨fun hq => h.returns (mt hpq.mp hq), fun hq => h.fails (hpq.mpr hq)⟩

theorem bind (h : FailsIff p r) (hf : ∀ a, FailsIff q (f a)) : FailsIff (p ∨ q) (r >>= f) := by
  by_cases hp : p
  · rw [h.fails hp]
    exact ⟨fun hnot => absurd (.inl hp) hnot, fun _ => rfl⟩
  · obtain ⟨a, rfl⟩ := h.returns hp
    have hq : q ↔ p ∨ q := by simp [hp]
    exact (hf a).congr hq

theorem map (h : FailsIff p r) (f : α → β) : FailsIff p (do return f (← r)) :=
  (h.bind fun a => ok (f a)).congr (iff_of_eq (or_false p))

end FailsIff

/-! ### Texts of numbers that are too great -/

/-- A text that is a numeral of base 16, 8 or 2 and has no number of the format near it. -/
def TooGreat (v : Value) : Prop :=
  ∃ (s : String) (b : Based), v = .text s ∧ b.Spells (Text.trimList s.toList) ∧ limit ≤ b.value

theorem not_tooGreat_of_ne {v : Value} (h : ∀ s, v ≠ .text s) : ¬ TooGreat v :=
  fun ⟨s, _, hv, _⟩ => h s hv

theorem textNumber_failsIff (t : List Char) :
    FailsIff (∃ b : Based, b.Spells t ∧ limit ≤ b.value) (textNumber t) := by
  constructor
  · intro hgood
    by_cases hspelling : ∃ p : Decimal.Spelling, p.text = t
    · obtain ⟨p, rfl⟩ := hspelling
      rcases textNumber_spelling p with ⟨code, -, hnumber⟩ | ⟨-, hnumber⟩
      · exact ⟨_, hnumber⟩
      · exact ⟨_, hnumber⟩
    · by_cases hbased : ∃ b : Based, b.Spells t
      · obtain ⟨b, hb⟩ := hbased
        rcases textNumber_based hb with ⟨code, -, hnumber⟩ | ⟨hlimit, -⟩
        · exact ⟨_, hnumber⟩
        · exact absurd ⟨b, hb, hlimit⟩ hgood
      · exact ⟨_, textNumber_other (fun p hp => hspelling ⟨p, hp⟩) fun b hb => hbased ⟨b, hb⟩⟩
  · rintro ⟨b, hb, hlimit⟩
    rcases textNumber_based hb with ⟨code, hnear, -⟩ | ⟨-, herror⟩
    · exact absurd hnear.lt_limit (not_lt.mpr hlimit)
    · exact herror

/-- The number of a text is finite. -/
theorem isFinite_of_textNumber {t : List Char} {x : Binary64} (h : textNumber t = .ok (.float x)) :
    x.isFinite = true := by
  by_cases hspelling : ∃ p : Decimal.Spelling, p.text = t
  · obtain ⟨p, rfl⟩ := hspelling
    rcases textNumber_spelling p with ⟨code, -, hnumber⟩ | ⟨-, hnumber⟩ <;> rw [hnumber] at h <;>
      cases h
    rfl
  · by_cases hbased : ∃ b : Based, b.Spells t
    · obtain ⟨b, hb⟩ := hbased
      rcases textNumber_based hb with ⟨code, -, hnumber⟩ | ⟨-, hnumber⟩ <;> rw [hnumber] at h <;>
        cases h
      rfl
    · rw [textNumber_other (fun p hp => hspelling ⟨p, hp⟩) fun b hb => hbased ⟨b, hb⟩] at h
      cases h

namespace Value

/-! ### Values of any depth -/

/-- **A value is taken for a number**, unless it is a text of a number that is too great. -/
theorem toNumber_failsIff (v : Value) : FailsIff (TooGreat v) v.toNumber := by
  have hother : ∀ {n : Number}, v.toNumber = .ok n → (∀ s, v ≠ .text s) →
      FailsIff (TooGreat v) v.toNumber := fun {n} hn hv => by
    rw [hn]
    exact (FailsIff.ok n).congr (iff_of_false id (not_tooGreat_of_ne hv))
  cases v with
  | list items => exact hother rfl (by simp)
  | map entries => exact hother rfl (by simp)
  | scalar s =>
    cases s with
    | null => exact hother rfl (by simp)
    | bool b => exact hother rfl (by simp)
    | number n => exact hother rfl (by simp)
    | text s =>
      refine (textNumber_failsIff (Text.trimList s.toList)).congr ⟨?_, ?_⟩
      · rintro ⟨b, hb, hlimit⟩
        exact ⟨s, b, rfl, hb, hlimit⟩
      · rintro ⟨s', b, hs, hb, hlimit⟩
        obtain rfl : s = s' := by simpa using hs
        exact ⟨b, hb, hlimit⟩

/-- What stands in a value, in lists of any depth, and is no list itself. -/
inductive Leaf : Value → Value → Prop
  | here {v : Value} (h : ∀ items, v ≠ .list items) : Leaf v v
  | item {items : List Value} {v w : Value} (hv : v ∈ items) (hw : Leaf v w) : Leaf (.list items) w

theorem leaf_list_iff {items : List Value} {w : Value} :
    Leaf (.list items) w ↔ ∃ v ∈ items, Leaf v w := by
  constructor
  · rintro (h | ⟨hv, hw⟩)
    · exact absurd rfl (h items)
    · exact ⟨_, hv, hw⟩
  · rintro ⟨v, hv, hw⟩
    exact .item hv hw

theorem leaf_iff_eq {v w : Value} (h : ∀ items, v ≠ .list items) : Leaf v w ↔ w = v := by
  constructor
  · rintro (- | ⟨hv, hw⟩)
    · rfl
    · exact absurd rfl (h _)
  · rintro rfl
    exact .here h

mutual

/-- **A value of any depth is taken for numbers**, unless a text of a number that is too great stands
in it. -/
theorem numbers_failsIff : ∀ v : Value, FailsIff (∃ w, Leaf v w ∧ TooGreat w) v.numbers
  | .list items => by
    rw [numbers_list]
    refine (numbersOfList_failsIff items).congr ?_
    simp only [leaf_list_iff]
    constructor
    · rintro ⟨v, hv, w, hw, hgreat⟩
      exact ⟨w, ⟨v, hv, hw⟩, hgreat⟩
    · rintro ⟨w, ⟨v, hv, hw⟩, hgreat⟩
      exact ⟨v, hv, w, hw, hgreat⟩
  | .scalar s => by
    have hleaf : ∀ w, Leaf (.scalar s) w ↔ w = .scalar s := fun w => leaf_iff_eq (by simp)
    simp only [hleaf, exists_eq_left]
    exact (toNumber_failsIff (.scalar s)).map fun n => [n]
  | .map entries => by
    have hleaf : ∀ w, Leaf (.map entries) w ↔ w = .map entries := fun w => leaf_iff_eq (by simp)
    simp only [hleaf, exists_eq_left]
    exact (toNumber_failsIff (.map entries)).map fun n => [n]

theorem numbersOfList_failsIff : ∀ items : List Value,
    FailsIff (∃ v ∈ items, ∃ w, Leaf v w ∧ TooGreat w) (numbersOfList items)
  | [] => by
    rw [numbersOfList]
    exact (FailsIff.ok []).congr (by simp)
  | v :: rest => by
    rw [numbersOfList]
    refine ((numbers_failsIff v).bind fun ns => (numbersOfList_failsIff rest).map (ns ++ ·)).congr ?_
    simp

end

end Value

/-! ### Formulas -/

namespace Expr

variable {m : Type → Type} [Monad m] [LawfulMonad m] {read : String → ExceptT Fault m Value}
  {values : String → Value} {label start stop : String} {labels : List String}

theorem numberIn_failsIff (v : Value) : FailsIff (TooGreat v) (numberIn v) :=
  v.toNumber_failsIff.map _

theorem mapM_numberIn_failsIff (vs : List Value) :
    FailsIff (∃ v ∈ vs, TooGreat v) (vs.mapM numberIn) := by
  induction vs with
  | nil => exact (FailsIff.ok []).congr (by simp)
  | cons v vs ih =>
    rw [List.mapM_cons]
    refine ((numberIn_failsIff v).bind fun n => ih.map (n :: ·)).congr ?_
    simp

/-- A range of cells that are read without effect is the list of their numbers. -/
theorem evaluate_range (hlabels : Range.labels (start ++ ":" ++ stop) = .ok labels)
    (hread : ∀ l ∈ labels, read l = pure (values l)) : evaluate read (.range start stop) =
      pureResult (do return .list (← (labels.map values).mapM numberIn)) := by
  have hcells : labels.mapM read = pure (labels.map values) := by
    clear hlabels
    induction labels with
    | nil => rfl
    | cons l rest ih =>
      rw [List.mapM_cons, hread l List.mem_cons_self, pure_bind,
        ih fun l hl => hread l (List.mem_cons_of_mem _ hl), pure_bind]
      rfl
  rw [evaluate, readRange, hlabels, pureResult_ok_bind, hcells, pure_bind]
  cases (labels.map values).mapM numberIn with
  | ok numbers => exact pureResult_ok_bind _ _
  | error f => exact pureResult_error_bind _ _

theorem evaluate_neg_cell {v : Value} (hread : read label = pure v) :
    evaluate read (.neg (.cell label)) =
      pureResult (do return .scalar (.number (← v.toNumber).neg)) := by
  rw [evaluate, evaluate, hread, pure_bind]
  cases v.toNumber with
  | ok n => exact pureResult_ok_bind _ _
  | error f => exact pureResult_error_bind _ _

end Expr

/-! ### Coercion as a whole -/

/-- **When coercion fails.** A value is taken for a number, and a value of any depth for the numbers
in it, unless a text in it is a numeral of base 16, 8 or 2 whose number is too great; the numbers of
texts are finite. A formula that takes a cell for a number, and a range of cells, fails just the same:
if there is such a text in one of its cells, and not otherwise. -/
theorem coercion_failsIff {m : Type → Type} [Monad m] [LawfulMonad m]
    (read : String → ExceptT Fault m Value) (v : Value) :
    FailsIff (TooGreat v) v.toNumber ∧
    FailsIff (∃ w, Value.Leaf v w ∧ TooGreat w) v.numbers ∧
    (∀ (s : String) (x : Binary64), v = .text s → v.toNumber = .ok (.float x) →
      x.isFinite = true) ∧
    (∀ label, read label = pure v → ∃ r, Expr.evaluate read (.neg (.cell label)) = pureResult r ∧
      FailsIff (TooGreat v) r) ∧
    ∀ (values : String → Value) (start stop : String) (labels : List String),
      Range.labels (start ++ ":" ++ stop) = .ok labels →
      (∀ label ∈ labels, read label = pure (values label)) →
      ∃ r, Expr.evaluate read (.range start stop) = pureResult r ∧
        FailsIff (∃ label ∈ labels, TooGreat (values label)) r := by
  refine ⟨v.toNumber_failsIff, v.numbers_failsIff, ?_, fun label hread => ?_,
    fun values start stop labels hlabels hread => ?_⟩
  · rintro s x rfl hx
    exact isFinite_of_textNumber hx
  · exact ⟨_, Expr.evaluate_neg_cell hread, v.toNumber_failsIff.map _⟩
  · have hcells : (∃ w ∈ labels.map values, TooGreat w) ↔
        ∃ label ∈ labels, TooGreat (values label) := by simp
    exact ⟨_, Expr.evaluate_range hlabels hread,
      ((Expr.mapM_numberIn_failsIff _).map Value.list).congr hcells⟩

/-- The least power of 16 that is too great, in base 16. -/
def beyond : Based where
  letter := 'x'
  base := 16
  digits := '1' :: List.replicate 256 '0'
  named := by decide
  nonempty := List.cons_ne_nil _ _
  valid := by
    rintro c (- | ⟨-, hc⟩)
    · exact ⟨1, by decide, rfl⟩
    · rw [List.eq_of_mem_replicate hc]
      exact ⟨0, by decide, rfl⟩

theorem limit_le_beyond : limit ≤ (beyond.value : ℚ) := by
  have hvalue : beyond.value = 2 ^ 1024 := by decide +kernel
  rw [hvalue, Nat.cast_pow, Nat.cast_ofNat]
  exact limit_le_two_pow rfl

theorem beyond_spells : beyond.Spells (Text.trimList (String.ofList beyond.text).toList) := by
  rw [String.toList_ofList]
  exact .inl (by decide +kernel)

theorem tooGreat_beyond : TooGreat (.text (String.ofList beyond.text)) :=
  ⟨_, beyond, rfl, beyond_spells, limit_le_beyond⟩

/-- A column of cells, the second of which holds a text of a number that is too great. -/
def column (label : String) : Value :=
  if label = "A2" then .text (String.ofList beyond.text) else .int 1

def readColumn (label : String) : ExceptT Fault Id Value :=
  pure (column label)

theorem coercion_failsIff_column :
    (∃ x, (Value.text "0X10").toNumber = .ok (.float x) ∧ x.isFinite = true) ∧
    readColumn "A1" = pure (.int 1) ∧
    (∃ r, Expr.evaluate readColumn (.neg (.cell "A1")) = pureResult r ∧ ∃ v, r = .ok v) ∧
    Range.labels ("A1" ++ ":" ++ "A2") = .ok ["A1", "A2"] ∧
    (∀ label ∈ ["A1", "A2"], readColumn label = pure (column label)) ∧
    ∃ r, Expr.evaluate readColumn (.range "A1" "A2") = pureResult r ∧
      r = .error (.overflow .integer) := by
  have hbased : sixteen.Spells (Text.trimList "0X10".toList) := .inl (by decide +kernel)
  have hlabels : Range.labels ("A1" ++ ":" ++ "A2") = .ok ["A1", "A2"] := by decide +kernel
  have hread : ∀ label ∈ ["A1", "A2"], readColumn label = pure (column label) := fun _ _ => rfl
  have hfirst : readColumn "A1" = pure (.int 1) := rfl
  refine ⟨?_, hfirst, ?_, hlabels, hread, ?_⟩
  · rcases textNumber_based hbased with ⟨code, -, hnumber⟩ | ⟨hlimit, -⟩
    · have hfinite := (coercion_failsIff readColumn (.text "0X10")).2.2.1 "0X10" _ rfl hnumber
      exact ⟨_, hnumber, hfinite⟩
    · exact absurd sixteen_lt_limit (not_lt.mpr hlimit)
  · obtain ⟨r, hr, hfails⟩ := (coercion_failsIff readColumn (.int 1)).2.2.2.1 "A1" hfirst
    have hnumber : ¬ TooGreat (.int 1) := not_tooGreat_of_ne fun s h => by cases h
    exact ⟨r, hr, hfails.returns hnumber⟩
  · obtain ⟨r, hr, hfails⟩ :=
      (coercion_failsIff readColumn .null).2.2.2.2 column "A1" "A2" _ hlabels hread
    exact ⟨r, hr, hfails.fails ⟨"A2", by simp, tooGreat_beyond⟩⟩

/-- **A text that is not taken for a number**, though it is a numeral. -/
theorem not_number_of_beyond : ¬ ∀ v : Value, ∃ n, v.toNumber = .ok n := by
  intro h
  obtain ⟨n, hn⟩ := h (.text (String.ofList beyond.text))
  rw [(Value.toNumber_failsIff _).fails tooGreat_beyond] at hn
  cases hn

end Spreadsheet
