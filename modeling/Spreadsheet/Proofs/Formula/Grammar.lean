import Spreadsheet.Formula.Parsing
import Mathlib.Data.List.TakeWhile

/-! # The grammar of formulas

A formula is an equals sign and a sequence of tokens that the grammar derives: comparisons of sums
of products of operands, all binary levels associating to the left, unary minus above them, and
numbers, cells, ranges, names, calls and brackets as operands (`Derives`). The grammar knows no
bound on the digits of a number.

* `Denotes`: the number that a numeral stands for.
* `Grammatical`: the text of a formula and a tree that its tokens derive.
* `readable_of_mem_scan`: every numeral of a text denotes a number. -/

namespace Spreadsheet

namespace Formula

/-! ### Derivations -/

/-- The number of a numeral: an integer if it has no point, else a floating point number. -/
inductive Denotes (numeral : String) : Number → Prop
  | integer (h : '.' ∉ numeral.toList) : Denotes numeral (.int (Text.digitsValue numeral.toList))
  | float {x} (h : '.' ∈ numeral.toList) (hx : Decimal.read? numeral.toList = some x) :
      Denotes numeral (.float x)

/-- The levels of the grammar, the loosest first. -/
inductive Level where
  | comparison | sum | product | unary | primary
  deriving DecidableEq, Repr

namespace Level

/-- The level of the operands of a level. -/
def tighter? : Level → Option Level
  | comparison => some sum
  | sum => some product
  | product => some unary
  | unary => some primary
  | primary => none

/-- The operators between the operands of a level. -/
def operators : Level → List Operator
  | comparison => [.eq, .ne, .gt, .ge, .lt, .le]
  | sum => [.add, .sub]
  | product => [.mul, .div]
  | unary | primary => []

end Level

/-- The parts in order with commas between them. -/
def separated (parts : List (List Token)) : List Token :=
  [Token.comma].intercalate parts

/-- **The tokens derive the tree** at a level of the grammar. -/
inductive Derives : Level → List Token → Expr → Prop
  | tighter {level next ts e} (hn : level.tighter? = some next) (h : Derives next ts e) :
      Derives level ts e
  | binary {level next ts us l r} {op : Operator} (hn : level.tighter? = some next)
      (hop : op ∈ level.operators) (hl : Derives level ts l) (hr : Derives next us r) :
      Derives level (ts ++ .op op :: us) (.binary op l r)
  | neg {ts e} (h : Derives .unary ts e) : Derives .unary (.op .sub :: ts) (.neg e)
  | number {numeral n} (h : Denotes numeral n) :
      Derives .primary [.number numeral] (.literal (.scalar (.number n)))
  | cell (label : String) : Derives .primary [.cell label] (.cell label)
  | range (start stop : String) :
      Derives .primary [.cell start, .colon, .cell stop] (.range start stop)
  | name (letters : String) : Derives .primary [.name letters] (.literal (.int 0))
  | call {letters} {args : List (List Token × Expr)}
      (h : ∀ x ∈ args, Derives .comparison x.1 x.2) :
      Derives .primary (.name letters :: .leftParen :: separated (args.map Prod.fst) ++ [.rightParen])
        (.call letters (args.map Prod.snd))
  | group {ts e} (h : Derives .comparison ts e) :
      Derives .primary (.leftParen :: ts ++ [.rightParen]) e

/-- **The text is a formula with the tree**: without the blanks at its ends it is an equals sign
and a text that splits into tokens, which derive the tree. -/
def Grammatical (text : String) (e : Expr) : Prop :=
  ∃ body placed, Text.trimList text.toList = '=' :: body ∧
    tokenize (String.ofList body) = .ok placed ∧
      Derives .comparison (placed.map Placed.token) e

/-- No integer of the text has too many digits to be read. -/
def IntegersFit (ts : List Token) : Prop :=
  ∀ digits, Token.number digits ∈ ts → '.' ∉ digits.toList → digits.toList.length ≤ numeralLimit

/-! ### Numerals -/

/-- A numeral with a point reads as a floating point number. -/
def Readable : Token → Prop
  | .number numeral => '.' ∈ numeral.toList → ∃ x, Decimal.read? numeral.toList = some x
  | _ => True

theorem takeMantissa_digits {whole fraction : List Char}
    (hw : ∀ c ∈ whole, Decimal.isAsciiDigit c = true)
    (hf : ∀ c ∈ fraction, Decimal.isAsciiDigit c = true) (hne : whole ≠ [] ∨ fraction ≠ []) :
    Decimal.takeMantissa (whole ++ '.' :: fraction) = some (whole, fraction, []) := by
  have htake : (whole ++ '.' :: fraction).takeWhile Decimal.isAsciiDigit = whole := by
    rw [List.takeWhile_append_of_pos hw]
    exact List.append_nil whole
  have hdrop : (whole ++ '.' :: fraction).dropWhile Decimal.isAsciiDigit = '.' :: fraction := by
    rw [List.dropWhile_append_of_pos hw]
    rfl
  have hfraction : fraction.takeWhile Decimal.isAsciiDigit = fraction :=
    List.takeWhile_eq_self_iff.mpr hf
  have hrest : fraction.dropWhile Decimal.isAsciiDigit = [] := List.dropWhile_eq_nil_iff.mpr hf
  unfold Decimal.takeMantissa
  rw [htake, hdrop]
  simp only [hfraction, hrest]
  refine if_neg ?_
  rw [Bool.and_eq_true, List.isEmpty_iff, List.isEmpty_iff]
  exact not_and_or.mpr hne

/-- Digits with one point between them, or at their end, read as a floating point number. -/
theorem exists_read {whole fraction : List Char}
    (hw : ∀ c ∈ whole, Decimal.isAsciiDigit c = true)
    (hf : ∀ c ∈ fraction, Decimal.isAsciiDigit c = true) (hne : whole ≠ [] ∨ fraction ≠ []) :
    ∃ x, Decimal.read? (whole ++ '.' :: fraction) = some x := by
  have hsign : Decimal.takeSign (whole ++ '.' :: fraction) = (false, whole ++ '.' :: fraction) := by
    unfold Decimal.takeSign
    cases whole with
    | nil => rfl
    | cons c whole =>
      have hc := hw c List.mem_cons_self
      split
      · next rest h =>
        obtain rfl := (List.cons.inj h).1
        cases hc
      · next rest h =>
        obtain rfl := (List.cons.inj h).1
        cases hc
      · rfl
  unfold Decimal.read?
  rw [hsign, Option.bind_eq_bind]
  simp only [takeMantissa_digits hw hf hne]
  exact ⟨_, rfl⟩

/-- Digits and at most one point, with a digit and a point among them, read as a floating point
number. -/
theorem exists_read_of_count {run : List Char} (hnum : ∀ c ∈ run, Token.isNumeric c = true)
    (hcount : run.count '.' ≤ 1) (hdigit : ∃ c ∈ run, Decimal.isAsciiDigit c = true)
    (hpoint : '.' ∈ run) : ∃ x, Decimal.read? run = some x := by
  obtain ⟨whole, fraction, rfl, hwhole⟩ := List.eq_append_cons_of_mem hpoint
  have hfraction : '.' ∉ fraction := by
    rw [List.count_append, List.count_cons_self] at hcount
    exact List.count_eq_zero.mp (by omega)
  have hdigits {cs : List Char} (hcs : ∀ c ∈ cs, c ∈ whole ++ '.' :: fraction)
      (hno : '.' ∉ cs) : ∀ c ∈ cs, Decimal.isAsciiDigit c = true := by
    intro c hc
    have hne : c ≠ '.' := fun h => hno (h ▸ hc)
    simpa [Token.isNumeric, hne] using hnum c (hcs c hc)
  refine exists_read (hdigits (fun c hc => List.mem_append_left _ hc) hwhole)
    (hdigits (fun c hc => by simp [hc]) hfraction) ?_
  obtain ⟨c, hc, hd⟩ := hdigit
  rcases List.mem_append.mp hc with hc | hc
  · exact Or.inl (List.ne_nil_of_mem hc)
  · rcases List.mem_cons.mp hc with rfl | hc
    · cases hd
    · exact Or.inr (List.ne_nil_of_mem hc)

theorem exists_digit_of_start {c : Char} {rest : List Char}
    (h : (Decimal.isAsciiDigit c || (c = '.' && rest.head?.any Decimal.isAsciiDigit)) = true) :
    ∃ d ∈ (c :: rest).takeWhile Token.isNumeric, Decimal.isAsciiDigit d = true := by
  rcases Bool.or_eq_true_iff.mp h with hc | hc
  · have hnum : Token.isNumeric c = true := by simp [Token.isNumeric, hc]
    exact ⟨c, by simp [hnum], hc⟩
  · rw [Bool.and_eq_true, decide_eq_true_eq, Option.any_eq_true] at hc
    obtain ⟨rfl, d, hd, hdigit⟩ := hc
    obtain ⟨rest, rfl⟩ := List.head?_eq_some_iff.mp hd
    exact ⟨d, by simp [Token.isNumeric, hdigit], hdigit⟩

theorem readable_front {cs : List Char} {t : Token} {more : Nat}
    (h : Token.front cs = .token t more) : Readable t := by
  unfold Token.front at h
  split at h
  · cases h
  · next c rest =>
    split_ifs at h with hletter hstart
    · unfold Token.wordFront at h
      obtain ⟨rfl, -⟩ := Token.Front.token.inj h
      split <;> trivial
    · unfold Token.numberFront at h
      dsimp only at h
      split_ifs at h with hcount
      obtain ⟨rfl, -⟩ := Token.Front.token.inj h
      intro hpoint
      rw [String.toList_ofList] at hpoint ⊢
      exact exists_read_of_count (fun d hd => List.mem_takeWhile_imp hd) hcount
        (exists_digit_of_start hstart) hpoint
    · unfold Token.signFront at h
      split at h <;> cases h <;> trivial

/-- **Every numeral of a text denotes a number.** -/
theorem readable_of_mem_scan (skip start : Nat) (cs : List Char) :
    ∀ t ∈ (Scan.ofListFrom skip start cs).tokens, Readable t.token := by
  fun_induction Scan.ofListFrom skip start cs with
  | case1 => simp
  | case2 start c rest skip ih => exact ih
  | case3 start c rest hc ih => exact ih
  | case4 start c rest hc t more hf scan ih =>
    exact List.forall_mem_cons.mpr ⟨readable_front hf, ih⟩
  | case5 start c rest hc text hf => simp
  | case6 start c rest hc hf => simp

end Formula

end Spreadsheet
