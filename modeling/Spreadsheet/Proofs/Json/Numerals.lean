import Spreadsheet.Json.Reading
import Spreadsheet.Proofs.Decimal.Numerals

/-! # Numerals that are too long in JSON

The reader comes from a state to a state over spaces and tokens (`Reads`). It fails on a numeral with
too many digits exactly if it comes to the integer with them where a value may stand, whatever is
after it (`read_numeralTooLong_iff`). -/

namespace Spreadsheet

namespace Json

/-! ### The way of the reader -/

/-- **The reader comes** from a state before a text to a state before what is left of it. -/
inductive Reads : State → List Char → State → List Char → Prop
  | here (s : State) (cs : List Char) : Reads s cs s cs
  | space {c : Char} {cs cs' : List Char} {s s' : State} (hc : isSpace c = true)
      (h : Reads s cs s' cs') : Reads s (c :: cs) s' cs'
  | token {c : Char} {cs cs' : List Char} {s s₁ s' : State} {t : Token} {more : Nat}
      (ht : Token.front? (c :: cs) = some (t, more)) (hs : s.step t = .ok s₁)
      (h : Reads s₁ (cs.drop more) s' cs') : Reads s (c :: cs) s' cs'

/-- No token starts with a space. -/
theorem isSpace_of_front? {c : Char} {cs : List Char} {x : Token × Nat}
    (h : Token.front? (c :: cs) = some x) : isSpace c = false := by
  refine Bool.eq_false_iff.mpr fun hc => ?_
  have hnone : ∀ d ∈ [' ', '\t', '\n', '\r'], Token.front? (d :: cs) = none := by
    simp only [List.forall_mem_cons]
    exact ⟨rfl, rfl, rfl, rfl, fun _ h => by cases h⟩
  have hmem : c ∈ [' ', '\t', '\n', '\r'] := by
    simpa [isSpace, or_assoc] using hc
  rw [hnone c hmem] at h
  cases h

theorem readFrom_drop (skip : Nat) (s : State) (cs : List Char) :
    readFrom skip s cs = readFrom 0 s (cs.drop skip) := by
  induction cs generalizing skip with
  | nil => cases skip <;> rfl
  | cons c cs ih =>
    cases skip with
    | zero => rfl
    | succ skip => exact ih skip

theorem readFrom_space {c : Char} (hc : isSpace c = true) (s : State) (cs : List Char) :
    readFrom 0 s (c :: cs) = readFrom 0 s cs := by
  rw [readFrom, if_pos hc]

theorem readFrom_token {c : Char} {cs : List Char} {t : Token} {more : Nat}
    (ht : Token.front? (c :: cs) = some (t, more)) (s : State) :
    readFrom 0 s (c :: cs) = (s.step t).bind fun s' => readFrom 0 s' (cs.drop more) := by
  rw [readFrom, if_neg (by simp [isSpace_of_front? ht]), ht]
  simp only [← readFrom_drop more]
  rfl

/-- Reading goes on from where the reader has come to. -/
theorem Reads.readFrom {s s' : State} {cs cs' : List Char} (h : Reads s cs s' cs') :
    readFrom 0 s cs = readFrom 0 s' cs' := by
  induction h with
  | here => rfl
  | space hc _ ih => rw [readFrom_space hc, ih]
  | token ht hs _ ih => rw [readFrom_token ht, hs, ← ih]; rfl

/-! ### Integers with too many digits -/

/-- A value may come next. -/
def State.TakesValue : State → Prop
  | value _ | firstItem _ => True
  | _ => False

/-- An integer with `k` digits, more than can be read. -/
def Token.IsLong (t : Token) (k : Nat) : Prop :=
  ∃ negative digits, t = .integer negative digits ∧ digits.length = k ∧ numeralLimit < k

theorem Token.isLong_integer {negative : Bool} {digits : List Char} {k : Nat} :
    (Token.integer negative digits).IsLong k ↔ digits.length = k ∧ numeralLimit < k :=
  ⟨fun ⟨_, _, heq, hk⟩ => (Token.integer.inj heq).2 ▸ hk, fun hk => ⟨_, _, rfl, hk⟩⟩

theorem State.begin_numeralTooLong_iff {frames : List Frame} {t : Token} {k : Nat} :
    State.begin frames t = .error (.numeralTooLong k) ↔ t.IsLong k := by
  cases t with
  | integer negative digits =>
    rw [Token.isLong_integer, State.begin]
    obtain ⟨hlength, hread⟩ | ⟨hlength, hread⟩ := Numeral.read_cases digits <;> rw [hread]
    · refine ⟨fun h => (by cases h), ?_⟩
      rintro ⟨rfl, hk⟩
      exact absurd hk (Nat.not_lt.mpr hlength)
    · refine ⟨fun h => ?_, fun ⟨hk, _⟩ => by rw [← hk]⟩
      obtain rfl := Unreadable.numeralTooLong.inj (Except.error.inj h)
      exact ⟨rfl, hlength⟩
  | _ => simp [State.begin, Token.IsLong]

theorem State.step_numeralTooLong_iff {s : State} {t : Token} {k : Nat} :
    s.step t = .error (.numeralTooLong k) ↔ s.TakesValue ∧ t.IsLong k := by
  cases s with
  | value frames => simp [State.step, State.TakesValue, begin_numeralTooLong_iff]
  | firstItem frames =>
    cases t <;> simp [State.step, State.TakesValue, begin_numeralTooLong_iff, Token.IsLong]
  | _ => cases t <;> simp [State.step, State.TakesValue]

/-- **A text meets a long numeral** from a state on: the reader comes to an integer with `k` digits,
more than can be read, where a value may stand. -/
def MeetsLong (s : State) (cs : List Char) (k : Nat) : Prop :=
  ∃ s' rest t more, Reads s cs s' rest ∧ s'.TakesValue ∧ Token.front? rest = some (t, more) ∧
    t.IsLong k

theorem MeetsLong.readFrom {s : State} {cs : List Char} {k : Nat} (h : MeetsLong s cs k) :
    readFrom 0 s cs = .error (.numeralTooLong k) := by
  obtain ⟨s', rest, t, more, hreads, hvalue, hfront, hlong⟩ := h
  cases rest with
  | nil => cases hfront
  | cons c rest =>
    rw [hreads.readFrom, readFrom_token hfront, State.step_numeralTooLong_iff.mpr ⟨hvalue, hlong⟩]
    rfl

theorem meetsLong_of_readFrom {s : State} {cs : List Char} {k : Nat}
    (h : readFrom 0 s cs = .error (.numeralTooLong k)) : MeetsLong s cs k := by
  induction hn : cs.length using Nat.strongRecOn generalizing s cs with
  | ind n ih =>
    cases cs with
    | nil => cases s <;> cases h
    | cons c cs =>
      have hlt : ∀ more, (cs.drop more).length < n := fun more => by
        rw [← hn, List.length_drop, List.length_cons]
        omega
      by_cases hspace : isSpace c = true
      · rw [readFrom_space hspace] at h
        obtain ⟨s', rest, t, more, hreads, hrest⟩ := ih _ (hlt 0) h rfl
        exact ⟨s', rest, t, more, .space hspace hreads, hrest⟩
      cases hfront : Token.front? (c :: cs) with
      | none =>
        rw [Json.readFrom, if_neg hspace, hfront] at h
        cases h
      | some x =>
        obtain ⟨t, more⟩ := x
        rw [readFrom_token hfront] at h
        cases hstep : s.step t with
        | error e =>
          rw [hstep] at h
          obtain rfl := Except.error.inj h
          obtain ⟨hvalue, hlong⟩ := State.step_numeralTooLong_iff.mp hstep
          exact ⟨s, c :: cs, t, more, .here s _, hvalue, hfront, hlong⟩
        | ok s₁ =>
          rw [hstep] at h
          obtain ⟨s', rest, t', more', hreads, hrest⟩ := ih _ (hlt more) h rfl
          exact ⟨s', rest, t', more', .token hfront hstep hreads, hrest⟩

/-- **Reading fails on a numeral with too many digits** exactly if the reader comes to it. -/
theorem read_numeralTooLong_iff {cs : List Char} {k : Nat} :
    read cs = .error (.numeralTooLong k) ↔ MeetsLong (.value []) cs k :=
  ⟨meetsLong_of_readFrom, MeetsLong.readFrom⟩

end Json

end Spreadsheet
