import Spreadsheet.Formula.Parsing
import Spreadsheet.Proofs.Label
import Spreadsheet.Proofs.Formula.Occurrence

/-! # Trees of formula texts

What the reader of formulas makes: trees whose literals are numbers, whose cells have plain labels,
and whose ranges have rows that can be read (`Expr.Parsed`). If no numeral of a text is too long
(`NumeralsFit`), a text has such a tree or is refused by the grammar.

* `Scan.ofListFrom_sound`: the tokens of a text have plain labels.
* `step_reached`: one token keeps what has been read so far well made (`State.Reached`).
* `parsed_or_refused`: the result for a whole text.
* `ofText_fault`, `ofText_digits`: why other texts have no tree.
* `Parsed.comesWithin`: the values that a parsed tree comes to. -/

namespace Spreadsheet

open Label (Plain rowDigits)

namespace Formula

/-- The tokens of a formula's text after its `=`, as far as they can be told. -/
def tokens (text : String) : List Token :=
  match Text.trimList text.toList with
  | '=' :: body => (Scan.ofBody (String.ofList body)).tokens.map Placed.token
  | _ => []

/-- **No integer and no row of a range has too many digits to be read.** -/
structure NumeralsFit (ts : List Token) : Prop where
  integers : ∀ digits, Token.number digits ∈ ts → '.' ∉ digits.toList →
    digits.toList.length ≤ numeralLimit
  rows : ∀ a b, [Token.cell a, .colon, .cell b] <:+: ts →
    (rowDigits a).length ≤ numeralLimit ∧ (rowDigits b).length ≤ numeralLimit

/-- Tokens that are short enough as texts fit. -/
theorem numeralsFit_of_short {ts : List Token}
    (h : ∀ t ∈ ts, t.text.toList.length ≤ numeralLimit) : NumeralsFit ts where
  integers digits hd _ := h _ hd
  rows a b hab :=
    have hrow {l : String} (hl : Token.cell l ∈ ts) : (rowDigits l).length ≤ numeralLimit :=
      Nat.le_trans (List.dropWhile_sublist _).length_le (h _ hl)
    ⟨hrow (hab.subset (by simp)), hrow (hab.subset (by simp))⟩

end Formula

/-- A tree as it comes from a text. -/
inductive Expr.Parsed : Expr → Prop
  | literal (n : Number) : Parsed (.literal (.scalar (.number n)))
  | cell {label} (h : Plain label) : Parsed (.cell label)
  | range {a b} (ha : Plain a) (hb : Plain b) (hrow : (rowDigits a).length ≤ numeralLimit)
      (hrow' : (rowDigits b).length ≤ numeralLimit) : Parsed (.range a b)
  | neg {e} (h : Parsed e) : Parsed (.neg e)
  | binary {op l r} (hl : Parsed l) (hr : Parsed r) : Parsed (.binary op l r)
  | call {name args} (h : ∀ e ∈ args, Parsed e) : Parsed (.call name args)

/-! ### Tokens -/

namespace Token

/-- A cell is named by a plain label. -/
def PlainCell : Token → Prop
  | cell label => Plain label
  | _ => True

theorem isDigit_of_ascii {c : Char} (h : Decimal.isAsciiDigit c = true) : c.isDigit = true := by
  rw [Label.isDigit_iff]
  simpa [Decimal.isAsciiDigit] using h

theorem plainCell_wordFront {cs : List Char} {t : Token} {more : Nat}
    (h : wordFront cs = .token t more) : t.PlainCell := by
  unfold wordFront at h
  obtain ⟨rfl, -⟩ := Front.token.inj h
  split
  · trivial
  · intro c hc
    rw [String.toList_ofList, List.mem_map] at hc
    obtain ⟨d, hd, rfl⟩ := hc
    rcases List.mem_append.mp hd with hd | hd
    · exact Or.inl (Label.isUpper_toUpper (List.mem_takeWhile_imp hd))
    · have hdigit := isDigit_of_ascii (List.mem_takeWhile_imp hd)
      exact Or.inr (by rwa [Label.toUpper_of_plain (Or.inr hdigit)])

theorem plainCell_front {cs : List Char} {t : Token} {more : Nat}
    (h : front cs = .token t more) : t.PlainCell := by
  unfold front at h
  split at h
  · cases h
  · split_ifs at h
    · exact plainCell_wordFront h
    · unfold numberFront at h
      dsimp only at h
      split_ifs at h
      obtain ⟨rfl, -⟩ := Front.token.inj h
      trivial
    · unfold signFront at h
      split at h <;> cases h <;> trivial

end Token

/-- **The cells of a text have plain labels**, and a text that cannot be split is malformed. -/
theorem Scan.ofListFrom_sound (skip start : Nat) (cs : List Char) :
    (∀ t ∈ (Scan.ofListFrom skip start cs).tokens, t.token.PlainCell) ∧
      ∀ f ∈ (Scan.ofListFrom skip start cs).fault,
        ∃ reason position, f = .badSyntax reason position := by
  fun_induction Scan.ofListFrom skip start cs with
  | case1 => simp
  | case2 start c rest skip ih => exact ih
  | case3 start c rest hc ih => exact ih
  | case4 start c rest hc t more hf scan ih =>
    refine ⟨fun t' ht' => ?_, ih.2⟩
    rcases List.mem_cons.mp ht' with rfl | ht'
    · exact Token.plainCell_front hf
    · exact ih.1 t' ht'
  | case5 start c rest hc text hf => simp
  | case6 start c rest hc hf => simp

/-! ### Reading tokens -/

namespace Formula

/-- All waiting operands have the property. -/
structure Waiting.All (p : Expr → Prop) (w : Waiting) : Prop where
  comparison : ∀ x ∈ w.comparison, p x.1
  sum : ∀ x ∈ w.sum, p x.1
  product : ∀ x ∈ w.product, p x.1

/-- All operands kept with a bracket have the property. -/
def Bracket.All (p : Expr → Prop) : Bracket → Prop
  | group outer => outer.All p
  | call outer _ args => outer.All p ∧ ∀ e ∈ args, p e

/-- An operand as it is after the tokens read. -/
def Atom.Reached (read : List Token) : Atom → Prop
  | number text => Token.number text ∈ read
  | name _ => True
  | cell label => [Token.cell label] <:+ read
  | whole e => e.Parsed

/-- What is read last agrees with the tokens read. -/
def Mode.Reached (read : List Token) : Mode → Prop
  | before _ => True
  | after a => a.Reached read
  | corner start => [Token.cell start, .colon] <:+ read

/-- **A state of reading** after the given tokens. -/
structure State.Reached (read : List Token) (s : State) : Prop where
  brackets : ∀ b ∈ s.brackets, b.All Expr.Parsed
  waiting : s.waiting.All Expr.Parsed
  mode : s.mode.Reached read

/-- A token is refused as not expected, or leads to a state of reading. -/
def Outcome (read : List Token) : Except Refusal State → Prop
  | .ok s => s.Reached read
  | .error r => r = .unexpected

theorem all_empty (p : Expr → Prop) : ({} : Waiting).All p :=
  ⟨fun _ h => (by cases h), fun _ h => (by cases h), fun _ h => (by cases h)⟩

namespace Waiting

variable {w : Waiting} {e : Expr} {op : Operator}

theorem parsed_join {waiting : Option (Expr × Operator)} (h : ∀ x ∈ waiting, x.1.Parsed)
    (he : e.Parsed) : (join waiting e).Parsed := by
  cases waiting with
  | none => exact he
  | some x => exact .binary (h x rfl) he

theorem parsed_negate (he : e.Parsed) : ∀ n, (negate n e).Parsed
  | 0 => he
  | n + 1 => .neg (parsed_negate he n)

theorem All.product' (hw : w.All Expr.Parsed) (he : e.Parsed) : (w.product' e).Parsed :=
  parsed_join hw.product (parsed_negate he _)

theorem All.sum' (hw : w.All Expr.Parsed) (he : e.Parsed) : (w.sum' e).Parsed :=
  parsed_join hw.sum (hw.product' he)

theorem All.comparison' (hw : w.All Expr.Parsed) (he : e.Parsed) : (w.comparison' e).Parsed :=
  parsed_join hw.comparison (hw.sum' he)

theorem All.push (hw : w.All Expr.Parsed) (he : e.Parsed) : (w.push e op).All Expr.Parsed := by
  unfold Waiting.push
  cases op.tier with
  | product =>
    refine ⟨hw.comparison, hw.sum, ?_⟩
    rintro x ⟨⟩
    exact hw.product' he
  | sum =>
    refine ⟨hw.comparison, ?_, fun x hx => (by cases hx)⟩
    rintro x ⟨⟩
    exact hw.sum' he
  | comparison =>
    refine ⟨?_, fun x hx => (by cases hx), fun x hx => (by cases hx)⟩
    rintro x ⟨⟩
    exact hw.comparison' he

end Waiting

section

variable {ts read : List Token} {s : State}

theorem parsed_toExpr (hfit : NumeralsFit ts) (hplain : ∀ t ∈ ts, t.PlainCell)
    (hread : read <+: ts) {a : Atom} (ha : a.Reached read) :
    ∃ e, a.toExpr = .ok e ∧ e.Parsed := by
  cases a with
  | number text =>
    have hnumber : ∃ n, numberOf text = .ok n := by
      by_cases h : '.' ∈ text.toList
      · exact ⟨_, by simp [numberOf, h]; rfl⟩
      · have hlen := hfit.integers text (hread.subset ha) h
        exact ⟨_, by simp [numberOf, h, hlen]; rfl⟩
    obtain ⟨n, hn⟩ := hnumber
    exact ⟨.literal (.scalar (.number n)), by rw [Atom.toExpr, hn]; rfl, .literal _⟩
  | name letters => exact ⟨_, rfl, .literal _⟩
  | cell label => exact ⟨_, rfl, .cell (hplain (.cell label) (hread.subset (ha.subset (by simp))))⟩
  | whole e => exact ⟨e, rfl, ha⟩

theorem outcome_stepBefore (hs : s.Reached read) (opened : Bool) (t : Token) :
    Outcome (read ++ [t]) (s.stepBefore opened t) := by
  cases t with
  | number text =>
    exact ⟨hs.brackets, hs.waiting, by simp [State.operand, Mode.Reached, Atom.Reached]⟩
  | cell label => exact ⟨hs.brackets, hs.waiting, List.suffix_append read [_]⟩
  | name letters => exact ⟨hs.brackets, hs.waiting, trivial⟩
  | op o =>
    cases o with
    | sub =>
      exact ⟨hs.brackets, ⟨hs.waiting.comparison, hs.waiting.sum, hs.waiting.product⟩, trivial⟩
    | _ => rfl
  | leftParen =>
    refine ⟨?_, all_empty _, trivial⟩
    rintro b (_ | ⟨_, hb⟩)
    · exact hs.waiting
    · exact hs.brackets b hb
  | rightParen =>
    unfold State.stepBefore
    dsimp only
    split
    · next outer name args rest _ hb =>
      have hcall := hs.brackets _ (hb ▸ List.mem_cons_self)
      refine ⟨fun b h => hs.brackets b (hb ▸ List.mem_cons_of_mem _ h), hcall.1, ?_⟩
      exact .call fun e he => hcall.2 e (List.mem_reverse.mp he)
    · rfl
  | comma | colon => rfl

theorem outcome_close (hs : s.Reached read) {e : Expr} (he : e.Parsed) (t : Token) :
    Outcome (read ++ [t]) (s.close e) := by
  have hwhole := hs.waiting.comparison' he
  unfold State.close
  dsimp only
  split
  · next outer rest hb =>
    exact ⟨fun b h => hs.brackets b (hb ▸ List.mem_cons_of_mem _ h),
      hs.brackets (.group outer) (hb ▸ List.mem_cons_self), hwhole⟩
  · next outer name args rest hb =>
    have hcall := hs.brackets _ (hb ▸ List.mem_cons_self)
    refine ⟨fun b h => hs.brackets b (hb ▸ List.mem_cons_of_mem _ h), hcall.1, .call fun d hd => ?_⟩
    rcases List.mem_cons.mp (List.mem_reverse.mp hd) with rfl | hd
    · exact hwhole
    · exact hcall.2 d hd
  · rfl

theorem outcome_separate (hs : s.Reached read) {e : Expr} (he : e.Parsed) (t : Token) :
    Outcome (read ++ [t]) (s.separate e) := by
  have hwhole := hs.waiting.comparison' he
  unfold State.separate
  dsimp only
  split
  · next outer name args rest hb =>
    have hcall := hs.brackets _ (hb ▸ List.mem_cons_self)
    refine ⟨?_, all_empty _, trivial⟩
    rintro b (_ | ⟨_, h⟩)
    · exact ⟨hcall.1, List.forall_mem_cons.mpr ⟨hwhole, hcall.2⟩⟩
    · exact hs.brackets b (hb ▸ List.mem_cons_of_mem _ h)
  · rfl

theorem outcome_stepAfter (hfit : NumeralsFit ts) (hplain : ∀ t ∈ ts, t.PlainCell)
    (hread : read <+: ts) (hs : s.Reached read) {a : Atom} (ha : a.Reached read) (t : Token) :
    Outcome (read ++ [t]) (s.stepAfter a t) := by
  obtain ⟨e, he, hparsed⟩ := parsed_toExpr hfit hplain hread ha
  cases t with
  | op o =>
    simp only [State.stepAfter, he]
    exact ⟨hs.brackets, hs.waiting.push hparsed, trivial⟩
  | rightParen =>
    simp only [State.stepAfter, he]
    exact outcome_close hs hparsed .rightParen
  | comma =>
    simp only [State.stepAfter, he]
    exact outcome_separate hs hparsed .comma
  | leftParen =>
    cases a with
    | name letters =>
      refine ⟨?_, all_empty _, trivial⟩
      rintro b (_ | ⟨_, hb⟩)
      · exact ⟨hs.waiting, fun _ h => by cases h⟩
      · exact hs.brackets b hb
    | _ => rfl
  | colon =>
    cases a with
    | cell label =>
      obtain ⟨front, rfl⟩ := ha
      exact ⟨hs.brackets, hs.waiting, front, by simp⟩
    | _ => rfl
  | number | cell | name => rfl

theorem outcome_stepCorner (hfit : NumeralsFit ts) (hplain : ∀ t ∈ ts, t.PlainCell)
    (hs : s.Reached read) {start : String} (hstart : [Token.cell start, .colon] <:+ read)
    (t : Token) (hread : read ++ [t] <+: ts) :
    Outcome (read ++ [t]) (s.stepCorner start t) := by
  cases t with
  | cell label =>
    obtain ⟨front, rfl⟩ := hstart
    have hrange : [Token.cell start, .colon, .cell label] <:+: ts := by
      obtain ⟨rest, rfl⟩ := hread
      exact ⟨front, rest, by simp⟩
    have hrows := hfit.rows start label hrange
    have ha := hplain (.cell start) (hrange.subset (by simp))
    have hb := hplain (.cell label) (hrange.subset (by simp))
    exact ⟨hs.brackets, hs.waiting, .range ha hb hrows.1 hrows.2⟩
  | _ => rfl

/-- **One token.** -/
theorem step_reached (hfit : NumeralsFit ts) (hplain : ∀ t ∈ ts, t.PlainCell)
    (hs : s.Reached read) (t : Token) (hread : read ++ [t] <+: ts) :
    Outcome (read ++ [t]) (s.step t) := by
  have hmode := hs.mode
  unfold State.step
  split
  · exact outcome_stepBefore hs _ t
  · next a hm =>
    rw [hm] at hmode
    exact outcome_stepAfter hfit hplain ((List.prefix_append _ _).trans hread) hs hmode t
  · next start hm =>
    rw [hm] at hmode
    exact outcome_stepCorner hfit hplain hs hmode t hread

/-- The fault of a text that the grammar refuses. -/
def IsBadSyntax (f : Fault) : Prop :=
  ∃ reason position, f = .badSyntax reason position

theorem foldlM_reached (hfit : NumeralsFit ts) (hplain : ∀ t ∈ ts, t.PlainCell) :
    ∀ (placed : List Placed) (read : List Token) (s : State), s.Reached read →
      read ++ placed.map Placed.token = ts →
      (∀ f, placed.foldlM State.stepPlaced s = .error f → IsBadSyntax f) ∧
        ∀ t, placed.foldlM State.stepPlaced s = .ok t → t.Reached ts
  | [], read, s, hs, h => by
    obtain rfl : read = ts := by simpa using h
    refine ⟨fun f hf => (by cases hf), fun t ht => ?_⟩
    obtain rfl : s = t := Except.ok.inj ht
    exact hs
  | p :: placed, read, s, hs, h => by
    have hread : read ++ [p.token] ++ placed.map Placed.token = ts := by simpa using h
    have hstep := step_reached hfit hplain hs p.token ⟨_, hread⟩
    rw [List.foldlM_cons, State.stepPlaced]
    cases hp : s.step p.token with
    | error r =>
      rw [hp] at hstep
      obtain rfl : r = .unexpected := hstep
      refine ⟨fun f hf => ⟨_, _, (Except.error.inj hf).symm⟩, fun t ht => (by cases ht)⟩
    | ok s' =>
      rw [hp] at hstep
      exact foldlM_reached hfit hplain placed (read ++ [p.token]) s' hstep hread

theorem finish_reached (hfit : NumeralsFit ts) (hplain : ∀ t ∈ ts, t.PlainCell)
    (hs : s.Reached ts) : (∃ e, s.finish = .ok e ∧ e.Parsed) ∨ s.finish = .error .unexpected := by
  have hmode := hs.mode
  unfold State.finish
  split
  · next a hm =>
    rw [hm] at hmode
    obtain ⟨e, he, hparsed⟩ := parsed_toExpr hfit hplain List.prefix_rfl hmode
    rw [he]
    by_cases hb : s.brackets.isEmpty = true
    · refine Or.inl ⟨_, ?_, hs.waiting.comparison' hparsed⟩
      simp only [bind, Except.bind, hb, if_true]
      rfl
    · exact Or.inr (by simp only [bind, Except.bind, hb]; rfl)
  · exact Or.inr rfl

end

/-- **A text whose numerals fit has a tree or is refused by the grammar.** -/
theorem parsed_or_refused {text : String} (hfit : NumeralsFit (tokens text)) :
    (∃ e, ofText text = .ok e ∧ e.Parsed) ∨ ∃ f, ofText text = .error f ∧ IsBadSyntax f := by
  unfold tokens at hfit
  unfold ofText
  split
  · next body hbody =>
    rw [hbody] at hfit
    unfold ofBody
    split_ifs with hblank
    · exact Or.inr ⟨_, rfl, _, _, rfl⟩
    · have hscan := Scan.ofListFrom_sound 0 0 (String.ofList body).toList
      have hplain : ∀ t ∈ (Scan.ofBody (String.ofList body)).tokens.map Placed.token,
          t.PlainCell := List.forall_mem_map.mpr hscan.1
      obtain ⟨herror, hok⟩ := foldlM_reached hfit hplain _ [] State.start
        ⟨fun _ h => (by cases h), all_empty _, trivial⟩ rfl
      unfold ofScan
      cases hfold :
        (Scan.ofBody (String.ofList body)).tokens.foldlM State.stepPlaced State.start with
      | error f => exact Or.inr ⟨f, rfl, herror f hfold⟩
      | ok s =>
        cases hfault : (Scan.ofBody (String.ofList body)).fault with
        | some f => exact Or.inr ⟨f, rfl, hscan.2 f hfault⟩
        | none =>
          rcases finish_reached hfit hplain (hok s hfold) with ⟨e, he, hparsed⟩ | he
          · exact Or.inl ⟨e, by simp only [bind, Except.bind, he]; rfl, hparsed⟩
          · exact Or.inr ⟨_, by simp only [bind, Except.bind, he]; rfl, _, _, rfl⟩
  · exact Or.inr ⟨_, rfl, _, _, rfl⟩

/-! ### Texts that have no tree -/

theorem mapError_fault {α : Type} {x : Except Refusal α} {reason : SyntaxError} {position : Nat}
    {f : Fault} (h : x.mapError (Refusal.fault reason position) = .error f) :
    IsBadSyntax f ∨ Label.IsLongNumeral f := by
  cases x with
  | ok a => cases h
  | error r =>
    cases r with
    | unexpected => exact Or.inl ⟨reason, position, (Except.error.inj h).symm⟩
    | numeralTooLong digits => exact Or.inr ⟨digits, (Except.error.inj h).symm⟩

theorem foldlM_fault : ∀ {placed : List Placed} {s : State} {f : Fault},
    placed.foldlM State.stepPlaced s = .error f → IsBadSyntax f ∨ Label.IsLongNumeral f
  | [], _, _, h => by cases h
  | t :: placed, s, f, h => by
    rw [List.foldlM_cons] at h
    cases ht : s.stepPlaced t with
    | error g =>
      rw [ht] at h
      obtain rfl : g = f := Except.error.inj h
      exact mapError_fault ht
    | ok s' =>
      rw [ht] at h
      exact foldlM_fault h

/-- **A text without tree** is refused by the grammar, or a numeral in it is too long. -/
theorem ofText_fault {text : String} {f : Fault} (h : ofText text = .error f) :
    IsBadSyntax f ∨ Label.IsLongNumeral f := by
  unfold ofText at h
  split at h
  · next body _ =>
    unfold ofBody at h
    split_ifs at h with hblank
    · exact Or.inl ⟨_, _, (Except.error.inj h).symm⟩
    · unfold ofScan at h
      cases hfold :
        (Scan.ofBody (String.ofList body)).tokens.foldlM State.stepPlaced State.start with
      | error g =>
        rw [hfold] at h
        obtain rfl : g = f := Except.error.inj h
        exact foldlM_fault hfold
      | ok s =>
        rw [hfold] at h
        cases hscan : (Scan.ofBody (String.ofList body)).fault with
        | some g =>
          rw [hscan] at h
          obtain rfl : g = f := Except.error.inj h
          exact Or.inl ((Scan.ofListFrom_sound 0 0 (String.ofList body).toList).2 g hscan)
        | none =>
          rw [hscan] at h
          exact mapError_fault h
  · exact Or.inl ⟨_, _, (Except.error.inj h).symm⟩

section Digits

variable {ds : List Char}

theorem front_digits (hne : ds ≠ []) (hd : ∀ d ∈ ds, Decimal.isAsciiDigit d = true) :
    Token.front ds = .token (.number (String.ofList ds)) (ds.length - 1) := by
  obtain ⟨c, rest, rfl⟩ := List.exists_cons_of_ne_nil hne
  have hc := hd c List.mem_cons_self
  have hletter : Label.isLetter c = false := by
    simp only [Decimal.isAsciiDigit, Bool.and_eq_true, decide_eq_true_eq] at hc
    simp [Label.isLetter]
    omega
  have hrun : (c :: rest).takeWhile Token.isNumeric = c :: rest :=
    List.takeWhile_eq_self_iff.mpr fun d h => by simp [Token.isNumeric, hd d h]
  have hpoint : (c :: rest).count '.' = 0 :=
    List.count_eq_zero.mpr fun h => absurd (hd '.' h) (by decide)
  simp only [Token.front, hletter, hc, Token.numberFront, hrun, hpoint]
  rfl

/-- Characters of a token already read are passed over. -/
theorem ofListFrom_skip : ∀ {ds : List Char} {skip start : Nat}, ds.length ≤ skip →
    Scan.ofListFrom skip start ds = ⟨[], none⟩
  | [], _, _, _ => by simp [Scan.ofListFrom]
  | d :: ds, skip, start, h => by
    obtain ⟨skip, rfl⟩ := Nat.exists_eq_add_one_of_ne_zero (n := skip) (by simp at h; omega)
    simpa [Scan.ofListFrom] using ofListFrom_skip (Nat.le_of_succ_le_succ h)

theorem ofBody_digits (hne : ds ≠ []) (hd : ∀ d ∈ ds, Decimal.isAsciiDigit d = true) :
    Scan.ofBody (String.ofList ds) = ⟨[⟨.number (String.ofList ds), 0⟩], none⟩ := by
  have hfront := front_digits hne hd
  obtain ⟨c, rest, rfl⟩ := List.exists_cons_of_ne_nil hne
  have hspace : Token.isSpace c = false := by
    have hc := hd c List.mem_cons_self
    simp only [Decimal.isAsciiDigit, Bool.and_eq_true, decide_eq_true_eq] at hc
    simp only [Token.isSpace, Bool.or_eq_false_iff, decide_eq_false_iff_not]
    refine ⟨⟨⟨⟨?_, ?_⟩, ?_⟩, ?_⟩, ?_⟩ <;> rintro rfl <;> revert hc <;> decide
  rw [Scan.ofBody, String.toList_ofList, Scan.ofListFrom]
  have hrest : Scan.ofListFrom rest.length 1 rest = ⟨[], none⟩ := ofListFrom_skip (Nat.le_refl _)
  simp [hspace, hfront, hrest]

/-- **A numeral of too many digits** is neither read nor refused by the grammar. -/
theorem ofText_digits (hd : ∀ d ∈ ds, Decimal.isAsciiDigit d = true)
    (hlen : numeralLimit < ds.length) :
    ofText (String.ofList ('=' :: ds)) = .error (.numeralTooLong ds.length) := by
  obtain ⟨c, rest, rfl⟩ : ∃ c rest, ds = c :: rest :=
    List.exists_cons_of_ne_nil (List.ne_nil_of_length_pos (Nat.zero_lt_of_lt hlen))
  have hblank : ∀ d ∈ c :: rest, Text.isBlank d = false := fun d h =>
    Label.isBlank_of_plain (Or.inr (Token.isDigit_of_ascii (hd d h)))
  have htrim : Text.trimList ('=' :: c :: rest) = '=' :: c :: rest := by
    refine Text.trimList_eq_self (fun d h => ?_) fun d h => ?_
    · obtain rfl := Option.some.inj h
      decide
    · rw [List.getLast?_cons_cons] at h
      exact hblank d (List.mem_of_mem_getLast? h)
  have hpoint : '.' ∉ c :: rest := fun h => absurd (hd '.' h) (by decide)
  have hnumber : numberOf (String.ofList (c :: rest)) =
      .error (.numeralTooLong (c :: rest).length) := by
    simp only [numberOf, String.toList_ofList, List.contains_iff_mem, hpoint, if_false,
      Nat.not_le_of_lt hlen]
  have hscan := ofBody_digits (List.cons_ne_nil c rest) hd
  rw [ofText, String.toList_ofList, htrim]
  simp only [ofBody, String.toList_ofList]
  rw [if_neg (by simp [hblank c]), hscan]
  show (State.finish ⟨[], {}, .after (.number (String.ofList (c :: rest)))⟩).mapError _ = _
  simp only [State.finish, Atom.toExpr, hnumber]
  rfl

end Digits

end Formula

/-! ### Parsed trees -/

namespace Expr

variable {e : Expr} {r : Reference}

/-- A reference of a parsed tree is a cell with a plain label or a range that can be read. -/
theorem Parsed.of_mem_mentions (h : e.Parsed) (hr : r ∈ e.mentions) :
    (∃ l, r = .cell l ∧ Plain l) ∨ ∃ a b, r = .range a b ∧ Plain a ∧ Plain b ∧
      (rowDigits a).length ≤ numeralLimit ∧ (rowDigits b).length ≤ numeralLimit := by
  induction h with
  | literal => simp [mentions, occurrences] at hr
  | cell h => exact Or.inl ⟨_, by simpa [mentions, occurrences] using hr, h⟩
  | range ha hb hrow hrow' =>
    exact Or.inr ⟨_, _, by simpa [mentions, occurrences] using hr, ha, hb, hrow, hrow'⟩
  | neg _ ih => exact ih (by simpa [mentions, occurrences] using hr)
  | binary _ _ ihl ihr =>
    rcases (by simpa [mentions, occurrences] using hr : _ ∨ _) with hr | hr
    · exact ihl hr
    · exact ihr hr
  | @call name args _ ih =>
    obtain ⟨d, hd, hr⟩ : ∃ d ∈ args, r ∈ d.mentions := by simpa [mentions, occurrences] using hr
    exact ih d hd hr

theorem Parsed.badReference (h : e.Parsed) (hr : r ∈ e.mentions) {f : Fault}
    (hf : r.labels = .error f) : Label.IsBadReference f := by
  rcases h.of_mem_mentions hr with ⟨m, rfl, -⟩ | ⟨a, b, rfl, ha, hb, hrow, hrow'⟩
  · cases hf
  · exact Label.labels_of_plain ha hb hrow hrow' hf

/-! ### Trees with plain labels -/

/-- The cells that a tree refers to by themselves have plain labels. -/
def PlainCells (e : Expr) : Prop :=
  ∀ l, .cell l ∈ e.mentions → Plain l

theorem Parsed.plainCells (h : e.Parsed) : e.PlainCells := by
  intro l hl
  rcases h.of_mem_mentions hl with ⟨m, hm, hplain⟩ | ⟨a, b, hr, -⟩
  · rwa [Reference.cell.inj hm]
  · cases hr

theorem PlainCells.plain_of_covers (h : e.PlainCells) (hr : r ∈ e.mentions) {l : String}
    (hl : r.Covers l) : Plain l := by
  obtain ⟨labels, hlabels, hmem⟩ := hl
  cases r with
  | cell m =>
    obtain rfl : labels = [m] := (Except.ok.inj hlabels).symm
    obtain rfl := List.mem_singleton.mp hmem
    exact h l hr
  | range a b => exact Label.plain_of_mem_labels hlabels l hmem

theorem text_range_ne_of_plain {a b l : String} (hl : Plain l) : a ++ ":" ++ b ≠ l := by
  rintro rfl
  exact hl.ne_colon ':' (by simp) rfl

/-- In a tree with plain labels, references of one text stand for the same cells. -/
theorem PlainCells.labels_eq_of_text (h : e.PlainCells) {r' : Reference} (hr : r ∈ e.mentions)
    (hr' : r' ∈ e.mentions) (htext : r.text = r'.text) : r.labels = r'.labels := by
  cases r with
  | cell m =>
    cases r' with
    | cell m' => exact congrArg Reference.labels (congrArg Reference.cell htext)
    | range a' b' => exact absurd htext.symm (text_range_ne_of_plain (h m hr))
  | range a b =>
    cases r' with
    | cell m' => exact absurd htext (text_range_ne_of_plain (h m' hr'))
    | range a' b' => exact congrArg Range.labels htext

/-- So the first of them will do. -/
theorem PlainCells.covers_references (h : e.PlainCells) (hr : r ∈ e.mentions) {l : String}
    (hl : r.Covers l) : ∃ r' ∈ e.references, r'.Covers l := by
  obtain ⟨r', hr', htext⟩ := exists_mem_references hr
  obtain ⟨labels, hlabels, hmem⟩ := hl
  have heq := h.labels_eq_of_text (mem_mentions_of_mem_references hr') hr htext
  exact ⟨r', hr', labels, heq.trans hlabels, hmem⟩

/-- A tree with plain labels asks for cells by the labels under which they are kept. -/
theorem PlainCells.asksOnly (h : e.PlainCells) :
    e.inquiry.AsksOnly fun l => Label.normalize l = l :=
  asksOnly_evaluate e fun _ hr _ hl => (h.plain_of_covers hr hl).normalize

/-! ### Values of parsed trees -/

/-- If the values of the cells have the property, and the computation comes to a value, it is a list
or a scalar with the property. -/
def ComesWithin (p : Scalar → Prop) : Inquiry (Except Fault Value) → Prop
  | .answer (.ok (.scalar v)) => p v
  | .answer (.ok (.map _)) => False
  | .answer _ => True
  | .ask _ next => ∀ v, p v → ComesWithin p (next v)

section ComesWithin

variable {p : Scalar → Prop}

theorem comesWithin_bind {α : Type} {x : ExceptT Fault Inquiry α}
    {f : α → ExceptT Fault Inquiry Value} (hf : ∀ a, ComesWithin p (f a).run) :
    ComesWithin p (x >>= f).run := by
  rw [ExceptT.run_bind]
  generalize x.run = y
  induction y with
  | answer r =>
    cases r with
    | ok a => exact hf a
    | error g => trivial
  | ask l next ih => exact fun v _ => ih v

theorem comesWithin_orFault (hnumber : ∀ n, p (.number n)) (r : Except Overflow Number) :
    ComesWithin p (pureResult (Number.orFault r) : ExceptT Fault Inquiry Value).run := by
  cases r with
  | ok n => exact hnumber n
  | error kind => trivial

theorem comesWithin_apply (hnumber : ∀ n, p (.number n)) (hbool : ∀ b, p (.bool b))
    (op : Operator) (a b : Number) :
    ComesWithin p (pureResult (op.apply a b) : ExceptT Fault Inquiry Value).run := by
  cases op with
  | add | sub | mul => exact comesWithin_orFault hnumber _
  | div =>
    show ComesWithin p (pureResult (if b.isZero then .ok (.int 0) else _) :
      ExceptT Fault Inquiry Value).run
    split_ifs
    · exact hnumber _
    · exact comesWithin_orFault hnumber _
  | _ => exact hbool _

theorem comesWithin_applyNamed (hnumber : ∀ n, p (.number n)) (name : String)
    (args : List Value) : ComesWithin p
      (pureResult (Function.applyNamed name args) : ExceptT Fault Inquiry Value).run := by
  have hbind {α : Type} (x : Except Fault α) (f : α → Except Fault Value)
      (hf : ∀ a, ComesWithin p (pureResult (f a) : ExceptT Fault Inquiry Value).run) :
      ComesWithin p (pureResult (x >>= f) : ExceptT Fault Inquiry Value).run := by
    cases x with
    | ok a => exact hf a
    | error g => trivial
  unfold Function.applyNamed
  split
  · next f _ =>
    cases f with
    | sum | average => exact hbind _ _ fun _ => comesWithin_orFault hnumber _
    | min | max => exact hbind _ _ fun _ => hnumber _
    | round => exact hbind _ _ fun _ => hbind _ _ fun _ => comesWithin_orFault hnumber _
  · exact hnumber _

mutual

/-- **A parsed tree comes to a list, or to a number, a truth value or the value of a cell.** -/
theorem Parsed.comesWithin (hnumber : ∀ n, p (.number n)) (hbool : ∀ b, p (.bool b)) :
    ∀ e : Expr, e.Parsed → ComesWithin p (e.evaluate Inquiry.cell).run
  | .literal v, h => by cases h; exact hnumber _
  | .cell label, _ => fun _ hv => hv
  | .range start stop, _ => by
    rw [evaluate, readRange]
    exact comesWithin_bind fun _ => comesWithin_bind fun _ => comesWithin_bind fun _ => trivial
  | .neg e, _ => by
    rw [evaluate]
    exact comesWithin_bind fun _ => comesWithin_bind fun _ => hnumber _
  | .binary op l r, _ => by
    rw [evaluate]
    exact comesWithin_bind fun _ => comesWithin_bind fun a => comesWithin_bind fun _ =>
      comesWithin_bind fun b => comesWithin_apply hnumber hbool op a b
  | .unsupported symbol l r, _ => by
    rw [evaluate]
    exact comesWithin_bind fun _ => comesWithin_bind fun _ => comesWithin_bind fun _ =>
      comesWithin_bind fun _ => trivial
  | .call name args, h => by
    rw [evaluate]
    split
    · exact Parsed.comesWithin_conditional hnumber hbool args (by cases h; assumption)
    · exact comesWithin_bind fun vs => comesWithin_applyNamed hnumber name vs
  | .foreign kind, _ => trivial

theorem Parsed.comesWithin_conditional (hnumber : ∀ n, p (.number n)) (hbool : ∀ b, p (.bool b)) :
    ∀ es : List Expr, (∀ e ∈ es, e.Parsed) →
      ComesWithin p (evaluateConditional Inquiry.cell es).run
  | [], _ => hnumber _
  | [condition], _ => by
    rw [evaluateConditional]
    exact comesWithin_bind fun _ => hnumber _
  | [condition, yes], h => by
    rw [evaluateConditional]
    refine comesWithin_bind fun v => ?_
    split
    · exact Parsed.comesWithin hnumber hbool yes (h _ (by simp))
    · exact hnumber _
  | condition :: yes :: no :: _, h => by
    rw [evaluateConditional]
    refine comesWithin_bind fun v => ?_
    split
    · exact Parsed.comesWithin hnumber hbool yes (h _ (by simp))
    · exact Parsed.comesWithin hnumber hbool no (h _ (by simp))

end

theorem ComesWithin.of_resolve {known : Knowledge} {x : Inquiry (Except Fault Value)}
    (hx : ComesWithin p x) (hknown : ∀ l ∈ x.asked known, ∀ v, known l = some v → p v) {v : Value}
    (h : x.resolve known = some (.ok v)) :
    (∃ w, v = .scalar w ∧ p w) ∨ ∃ items, v = .list items := by
  induction x with
  | answer r =>
    obtain rfl := Option.some.inj h
    cases v with
    | scalar w => exact Or.inl ⟨w, rfl, hx⟩
    | list items => exact Or.inr ⟨items, rfl⟩
    | map entries => exact hx.elim
  | ask l next ih =>
    obtain ⟨w, hw, h⟩ := Option.bind_eq_some_iff.mp h
    simp only [Inquiry.asked, hw, Option.elim_some, List.mem_cons, forall_eq_or_imp] at hknown
    exact ih w (hx w (hknown.1 w rfl)) hknown.2 h

end ComesWithin

end Expr

end Spreadsheet
