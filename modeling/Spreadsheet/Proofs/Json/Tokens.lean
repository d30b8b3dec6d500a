import Spreadsheet.Json.Reading
import Spreadsheet.Proofs.Decimal.Layout
import Spreadsheet.Proofs.Json.Texts

/-! # Tokens in JSON

A printable text spells a token if the reader takes the token from it wherever it stands before
something that does not go on with a number (`Spells`). Words, texts, integers and decimals spell
their tokens, so every scalar that can be written spells a token that begins it again
(`scalar_spells`). -/

namespace Spreadsheet

namespace Json

open Decimal

/-! ### Spelled tokens -/

/-- What does not go on with a number. -/
def Ends (rest : List Char) : Prop :=
  ∀ c ∈ rest.head?, isAsciiDigit c = false ∧ c ∉ ['.', 'e', 'E']

theorem ends_nil : Ends [] := fun _ h => by cases h

theorem ends_cons {c : Char} (h : isAsciiDigit c = false ∧ c ∉ ['.', 'e', 'E']) (rest : List Char) :
    Ends (c :: rest) := fun d hd => by
  obtain rfl := Option.some.inj hd
  exact h

theorem Ends.noDigit {rest : List Char} (h : Ends rest) : NoDigit rest := fun c hc => (h c hc).1

/-- **A text spells a token**: read from its first character, which is no space, it is the token,
unless it goes on with a number. -/
structure Spells (text : List Char) (t : Token) : Prop where
  printable : ∀ c ∈ text, IsPrintable c
  start : ∃ c rest, text = c :: rest ∧ isSpace c = false
  front : ∀ rest, Ends rest → Token.front? (text ++ rest) = some (t, text.length - 1)

/-- The characters of a token are passed over once it has been read. -/
theorem readFrom_skip (s : State) (cs rest : List Char) :
    readFrom cs.length s (cs ++ rest) = readFrom 0 s rest := by
  induction cs with
  | nil => rfl
  | cons c cs ih => exact ih

/-- **A spelled token** is one step of the reader. -/
theorem Spells.readFrom {text : List Char} {t : Token} (h : Spells text t) {rest : List Char}
    (hrest : Ends rest) {s s' : State} (hstep : s.step t = .ok s') :
    readFrom 0 s (text ++ rest) = readFrom 0 s' rest := by
  obtain ⟨c, cs, rfl, hspace⟩ := h.start
  have hfront := h.front rest hrest
  rw [List.length_cons, Nat.add_sub_cancel, List.cons_append] at hfront
  rw [List.cons_append, Json.readFrom, hspace, hfront]
  simp only [hstep]
  exact readFrom_skip s' cs rest

/-- A mark is one step of the reader, whatever comes after it. -/
theorem readFrom_mark {c : Char} {t : Token} (hfront : ∀ rest, Token.front? (c :: rest) = some (t, 0))
    (hspace : isSpace c = false) {s s' : State} (hstep : s.step t = .ok s') (rest : List Char) :
    readFrom 0 s (c :: rest) = readFrom 0 s' rest := by
  rw [Json.readFrom, hspace, hfront]
  simp only [hstep]
  rfl

/-! ### Words and texts -/

theorem spells_word : ∀ x ∈ words, Spells x.1 (.word x.2) := by
  have hprintable : ∀ x ∈ words, x.1.all (fun c => decide (IsPrintable c)) = true := by decide
  intro x hx
  refine ⟨isPrintable_of_all (hprintable x hx), ?_, ?_⟩
  · revert x
    simp only [words, List.forall_mem_cons]
    exact ⟨⟨_, _, rfl, rfl⟩, ⟨_, _, rfl, rfl⟩, ⟨_, _, rfl, rfl⟩, ⟨_, _, rfl, rfl⟩, ⟨_, _, rfl, rfl⟩,
      ⟨_, _, rfl, rfl⟩, by simp⟩
  · revert x
    simp only [words, List.forall_mem_cons]
    exact ⟨fun _ _ => rfl, fun _ _ => rfl, fun _ _ => rfl, fun _ _ => rfl, fun _ _ => rfl,
      fun _ _ => rfl, by simp⟩

theorem spells_textLiteral (s : String) : Spells (textLiteral s).toList (.text s) where
  printable := isPrintable_textLiteral s
  start := ⟨'"', s.toList.flatMap escapedChar ++ ['"'],
    by rw [textLiteral, String.toList_ofList]; rfl, rfl⟩
  front rest _ := front?_textLiteral s rest

/-! ### Numbers -/

variable {p : Parts} {rest : List Char}

theorem wholeDigits_append (h : p.Valid) (hrest : NoDigit rest) :
    wholeDigits (p.whole ++ rest) = p.whole := by
  rcases h.leading with hlead | hzero
  · obtain ⟨c, cs, hwhole⟩ := List.exists_cons_of_ne_nil h.nonempty
    have hc : c ≠ '0' := hlead c (by rw [hwhole]; rfl)
    have htake := takeWhile_digits h.whole hrest
    rw [hwhole] at htake ⊢
    unfold wholeDigits
    split
    · next heq => exact absurd (List.cons.inj heq).1 hc
    · exact htake
  · rw [hzero]
    rfl

theorem fractionPart_append (h : p.Valid) (hrest : NoDigit rest) (hpoint : rest.head? ≠ some '.') :
    fractionPart (p.fractionText ++ rest) = p.fractionText := by
  unfold Parts.fractionText
  split
  · unfold fractionPart
    split
    · next heq =>
      rw [List.nil_append] at heq
      exact absurd (congrArg List.head? heq) hpoint
    · rfl
  · next hfraction =>
    rw [List.cons_append]
    simp only [fractionPart, takeWhile_digits h.fraction hrest]
    rw [if_neg (by simpa using hfraction)]

theorem exponentPart_append (h : p.Valid) (hrest : Ends rest) :
    exponentPart (p.exponentText ++ rest) = p.exponentText := by
  unfold Parts.exponentText
  split
  · cases rest with
    | nil => rfl
    | cons c rest =>
      have hc := (hrest c rfl).2
      simp only [List.mem_cons, List.not_mem_nil, or_false, not_or] at hc
      simp [exponentPart, hc]
  · next negative digits heq =>
    obtain ⟨hdigits, hnonempty⟩ := h.exponent _ heq
    have htake := takeWhile_digits hdigits hrest.noDigit
    have hempty : digits.isEmpty = false := by simpa using hnonempty
    cases negative <;> simp [exponentPart, htake, hempty]

/-- The sign in front of a number is found. -/
theorem filter_sign (h : p.Valid) (rest : List Char) :
    ((p.text ++ rest).take 1).filter (· = '-') = sign p.negative := by
  obtain ⟨c, cs, hwhole⟩ := List.exists_cons_of_ne_nil h.nonempty
  have hc : c ≠ '-' := by
    rintro rfl
    exact absurd (h.whole '-' (by rw [hwhole]; exact List.mem_cons_self)) (by decide)
  unfold Parts.text
  cases p.negative with
  | true => simp [sign]
  | false => simp [sign, hwhole, hc]

/-- **The text of a number's parts** is an integer if it has neither point nor exponent, and the
decimal that it is read as otherwise. -/
theorem number?_text (h : p.Valid) (hrest : Ends rest) : number? (p.text ++ rest) =
    if p.fraction = [] ∧ p.exponent = none then some (.integer p.negative p.whole, p.text.length)
    else (read? p.text).map fun x => (.decimal x, p.text.length) := by
  have hdrop : (p.text ++ rest).drop (sign p.negative).length
      = p.whole ++ (p.fractionText ++ (p.exponentText ++ rest)) := by
    unfold Parts.text
    simp only [List.append_assoc, List.drop_left']
  have hexponent : NoDigit (p.exponentText ++ rest) ∧ (p.exponentText ++ rest).head? ≠ some '.' := by
    unfold Parts.exponentText
    split
    · exact ⟨hrest.noDigit, fun hpoint => by simpa using (hrest '.' hpoint).2⟩
    · exact ⟨noDigit_cons (by decide) _, by simp⟩
  have hfraction : NoDigit (p.fractionText ++ (p.exponentText ++ rest)) := by
    unfold Parts.fractionText
    split
    · exact hexponent.1
    · exact noDigit_cons (by decide) _
  have hnone : (p.fractionText.isEmpty && p.exponentText.isEmpty) = true
      ↔ p.fraction = [] ∧ p.exponent = none := by
    unfold Parts.fractionText Parts.exponentText
    split <;> split <;> simp [*]
  unfold number?
  dsimp only
  rw [filter_sign h, hdrop, wholeDigits_append h hfraction, List.drop_left' rfl,
    fractionPart_append h hexponent.1 hexponent.2]
  rw [show (p.whole ++ (p.fractionText ++ (p.exponentText ++ rest))).drop
      (p.whole.length + p.fractionText.length) = p.exponentText ++ rest by
    rw [← List.length_append, ← List.append_assoc, List.drop_left' rfl], exponentPart_append h hrest,
    if_neg (by simpa using h.nonempty)]
  have hsign : (!(sign p.negative).isEmpty) = p.negative := by cases p.negative <;> rfl
  simp only [hnone, hsign]
  rfl

/-- A text that starts with a digit, or with a minus and a digit. -/
theorem Valid.start (h : p.Valid) : ∃ c cs, isAsciiDigit c = true ∧
    p.text = sign p.negative ++ c :: cs := by
  obtain ⟨c, cs, hwhole⟩ := List.exists_cons_of_ne_nil h.nonempty
  refine ⟨c, cs ++ (p.fractionText ++ p.exponentText),
    h.whole c (by rw [hwhole]; exact List.mem_cons_self), ?_⟩
  unfold Parts.text
  rw [hwhole]
  simp only [List.append_assoc, List.cons_append]

theorem ne_of_digit {c d : Char} (hc : isAsciiDigit c = true) (hd : isAsciiDigit d = false) :
    c ≠ d := by
  rintro rfl
  rw [hc] at hd
  cases hd

theorem isSpace_of_digit {c : Char} (h : isAsciiDigit c = true) : isSpace c = false := by
  rw [isAsciiDigit_iff] at h
  refine Bool.eq_false_iff.mpr fun hspace => ?_
  simp only [isSpace, Bool.or_eq_true, decide_eq_true_eq] at hspace
  rcases hspace with ((rfl | rfl) | rfl) | rfl <;> exact absurd h (by decide)

/-- No word starts with a digit, or with a minus and a digit. -/
theorem word?_digit {c : Char} (h : isAsciiDigit c = true) (negative : Bool) (cs : List Char) :
    word? (sign negative ++ c :: cs) = none := by
  have hletter : ∀ d : Char, isAsciiDigit d = false → (d == c) = false := fun d hd =>
    beq_false_of_ne (ne_of_digit h hd).symm
  have hfirst := hletter 'n' (by decide)
  have hsecond := hletter 't' (by decide)
  have hthird := hletter 'f' (by decide)
  have hfourth := hletter 'N' (by decide)
  have hfifth := hletter 'I' (by decide)
  have hminus := hletter '-' (by decide)
  cases negative <;>
    simp [word?, words, sign, List.isPrefixOf, hfirst, hsecond, hthird, hfourth, hfifth, hminus]

/-- A number is neither a mark nor a word. -/
theorem front?_digit {c : Char} (h : isAsciiDigit c = true) (negative : Bool) (cs : List Char) :
    Token.front? (sign negative ++ c :: cs)
      = (number? (sign negative ++ c :: cs)).map fun (t, count) => (t, count - 1) := by
  have hmark : Token.front? (sign negative ++ c :: cs) = (word? (sign negative ++ c :: cs) <|>
      number? (sign negative ++ c :: cs)).map fun (t, count) => (t, count - 1) := by
    cases negative with
    | true => rfl
    | false =>
      show Token.front? (c :: cs) = _
      unfold Token.front?
      split
      case h_8 => rfl
      all_goals
        rename_i heq
        exact absurd (List.cons.inj heq).1 (ne_of_digit h (by decide))
  rw [hmark, word?_digit h]
  rfl

theorem Spells.of_parts (h : p.Valid) {t : Token}
    (hnumber : ∀ rest, Ends rest → number? (p.text ++ rest) = some (t, p.text.length)) :
    Spells p.text t where
  printable c hc := by
    rcases h.mem_text hc with hdigit | hmark
    · rw [isAsciiDigit_iff] at hdigit
      exact ⟨by omega, by omega⟩
    · have hmarks : ∀ d ∈ ['-', '+', '.', 'e'], IsPrintable d := isPrintable_of_all (by decide)
      exact hmarks c hmark
  start := by
    obtain ⟨c, cs, hc, htext⟩ := Valid.start h
    cases hneg : p.negative with
    | true => exact ⟨'-', c :: cs, by rw [htext, hneg]; rfl, rfl⟩
    | false =>
      exact ⟨c, cs, by rw [htext, hneg]; rfl, isSpace_of_digit hc⟩
  front rest hrest := by
    obtain ⟨c, cs, hc, htext⟩ := Valid.start h
    have hfront := front?_digit hc p.negative (cs ++ rest)
    have happend : sign p.negative ++ c :: (cs ++ rest) = p.text ++ rest := by
      rw [htext, List.append_assoc]
      rfl
    rw [happend, hnumber rest hrest] at hfront
    exact hfront

/-- A number with a point or an exponent. -/
theorem spells_shows {negative : Bool} {code : Fin Binary64.codes} (h : p.Shows negative code) :
    Spells p.text (.decimal (.finite negative code)) := by
  refine .of_parts h.valid fun rest hrest => ?_
  have hparts : ¬ (p.fraction = [] ∧ p.exponent = none) := by
    rintro ⟨hfraction, hexponent⟩
    exact h.fractional.elim (absurd hfraction) (absurd hexponent)
  rw [number?_text h.valid hrest, if_neg hparts, h.valid.read?_text, h.minus, h.reads]
  rfl

/-- The numeral of an integer. -/
def integerParts (n : Int) : Parts :=
  { negative := n < 0, whole := Nat.toDigits 10 n.natAbs }

theorem valid_integerParts (n : Int) : (integerParts n).Valid where
  whole := asciiDigits_toDigits _
  nonempty := Nat.toDigits_ne_nil
  leading := by
    rcases Nat.eq_zero_or_pos n.natAbs with hzero | hpos
    · right
      rw [integerParts, hzero]
      rfl
    · exact .inl (head_toDigits hpos)
  fraction := fun _ hc => by cases hc
  exponent := fun _ hx => by cases hx

theorem text_integerParts (n : Int) : (integerParts n).text = (toString n).toList := by
  cases n with
  | ofNat m =>
    have hlist : (toString (Int.ofNat m)).toList = Nat.toDigits 10 m := Nat.toList_repr
    have hneg : decide (Int.ofNat m < 0) = false := decide_eq_false (by simp)
    rw [hlist, Parts.text, integerParts, hneg]
    exact List.append_nil _ |>.trans (List.append_nil _)
  | negSucc m =>
    have hlist : (toString (Int.negSucc m)).toList = '-' :: Nat.toDigits 10 (m + 1) := by
      rw [← Nat.toList_repr]
      exact String.toList_append
    have hneg : decide (Int.negSucc m < 0) = true := decide_eq_true (Int.negSucc_lt_zero m)
    rw [hlist, Parts.text, integerParts, hneg]
    exact List.append_nil _ |>.trans (List.append_nil _)

theorem spells_integer (n : Int) :
    Spells (toString n).toList (.integer (n < 0) (Nat.toDigits 10 n.natAbs)) := by
  rw [← text_integerParts]
  refine .of_parts (valid_integerParts n) fun rest hrest => ?_
  rw [number?_text (valid_integerParts n) hrest, if_pos ⟨rfl, rfl⟩]
  rfl

/-! ### Scalars -/

/-- The numeral of an integer that can be written is read as it. -/
theorem begin_integer {n : Int} {s : String} (h : Numeral.write n = .ok s) (frames : List Frame) :
    s = toString n ∧ State.begin frames (.integer (n < 0) (Nat.toDigits 10 n.natAbs))
      = .ok (State.complete (.int n) frames) := by
  unfold Numeral.write at h
  split at h
  · next hlt =>
    refine ⟨(Except.ok.inj h).symm, ?_⟩
    have hread := Numeral.read_toDigits (powerOfTen_eq _ ▸ hlt)
    have hsign : (if decide (n < 0) then -(n.natAbs : Int) else n.natAbs) = n := by
      split <;> simp only [decide_eq_true_eq] at * <;> omega
    simp only [State.begin, hread, hsign]
  · cases h

/-- **A scalar that is written** spells a token that begins it. -/
theorem scalar_spells {v : Scalar} {s : String} (h : scalar v = .ok s) : ∃ t,
    Spells s.toList t ∧ ∀ frames, State.begin frames t = .ok (State.complete (.scalar v) frames) := by
  have hword : ∀ x ∈ words, ∃ t, Spells x.1 t ∧
      ∀ frames, State.begin frames t = .ok (State.complete (.scalar x.2) frames) := fun x hx =>
    ⟨_, spells_word x hx, fun _ => rfl⟩
  simp only [words, List.forall_mem_cons] at hword
  obtain ⟨hnull, htrue, hfalse, hnan, hinf, hneg, -⟩ := hword
  cases v with
  | null =>
    obtain rfl := Except.ok.inj h
    exact hnull
  | bool b =>
    obtain rfl := Except.ok.inj h
    cases b
    · exact hfalse
    · exact htrue
  | text s' =>
    obtain rfl := Except.ok.inj h
    exact ⟨_, spells_textLiteral s', fun _ => rfl⟩
  | number n =>
    cases n with
    | int n =>
      simp only [scalar, bare, number, Number.shown] at h
      have hbegin := begin_integer h
      obtain rfl := (hbegin []).1
      exact ⟨_, spells_integer n, fun frames => (hbegin frames).2⟩
    | float x =>
      cases x with
      | nan =>
        obtain rfl := Except.ok.inj h
        exact hnan
      | inf negative =>
        obtain rfl := Except.ok.inj h
        cases negative
        · exact hinf
        · exact hneg
      | finite negative code =>
        obtain rfl := Except.ok.inj h
        obtain ⟨p, hshows, htext⟩ := exists_parts_write negative code
        exact ⟨_, htext ▸ spells_shows hshows, fun _ => rfl⟩

end Json

end Spreadsheet
