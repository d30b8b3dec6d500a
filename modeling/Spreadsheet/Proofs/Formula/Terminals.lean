import Spreadsheet.Formula.Token
import Mathlib.Data.List.Infix
import Mathlib.Data.List.TakeWhile

/-! # What a text starts with

The front of a text is told by its characters: letters as far as they go, with the digits after them
as far as these go; digits and points as far as they go; the longest sign that fits (`Picks`). The
reader takes just these tokens (`front_eq_token_iff`). It refuses just the rows of digits and points
that have more than one point (`front_eq_malformed_iff`) and the characters that start neither a
token nor such a row (`front_eq_stray_iff`). -/

namespace Spreadsheet.Token

/-! ### Tokens by their characters -/

/-- The class of characters goes no further: the text has ended or goes on with another one. -/
def Ended (p : Char → Bool) (rest : List Char) : Prop :=
  ∀ c ∈ rest.head?, p c = false

/-- The operators and the punctuation, with the characters that write them. -/
def signs : List (List Char × Token) :=
  (Operator.all.map fun o => (o.symbol.toList, op o)) ++
    [(['('], leftParen), ([')'], rightParen), ([','], comma), ([':'], colon)]

/-- Digits and points as far as they go, from a digit on or from a point before a digit. -/
structure NumeralRun (word rest : List Char) : Prop where
  starts : ∃ point digit more, word = point ++ digit :: more ∧ (point = [] ∨ point = ['.']) ∧
    Decimal.isAsciiDigit digit = true
  numeric : ∀ c ∈ word, isNumeric c = true
  ended : Ended isNumeric rest

/-- **The token at the front of a text**: `word` are its characters, `rest` is what follows. -/
inductive Picks : List Char → List Char → Token → Prop
  | cell {letters digits rest} (hl : letters ≠ []) (hd : digits ≠ [])
      (hletters : ∀ c ∈ letters, Label.isLetter c = true)
      (hdigits : ∀ c ∈ digits, Decimal.isAsciiDigit c = true)
      (hend : Ended Decimal.isAsciiDigit rest) :
      Picks (letters ++ digits) rest (cell (String.ofList ((letters ++ digits).map Char.toUpper)))
  | name {letters rest} (hl : letters ≠ []) (hletters : ∀ c ∈ letters, Label.isLetter c = true)
      (hend : Ended Label.isLetter rest) (hno : Ended Decimal.isAsciiDigit rest) :
      Picks letters rest (name (String.ofList (letters.map Char.toUpper)))
  | number {word rest} (h : NumeralRun word rest) (hcount : word.count '.' ≤ 1) :
      Picks word rest (number (String.ofList word))
  | sign {word rest t} (h : (word, t) ∈ signs)
      (hlongest : ∀ x ∈ signs, x.1 <+: word ++ rest → x.1.length ≤ word.length) : Picks word rest t

/-- The text starts with a token, or with digits and points that would make a number. -/
def Starts (cs : List Char) : Prop :=
  ∃ word rest, cs = word ++ rest ∧ ((∃ t, Picks word rest t) ∨ NumeralRun word rest)

/-! ### Classes of characters -/

section

variable {c : Char} {p : Char → Bool} {cs word rest : List Char}

theorem isLetter_of_isAsciiDigit (h : Decimal.isAsciiDigit c = true) :
    Label.isLetter c = false := by
  simp only [Decimal.isAsciiDigit, Bool.and_eq_true, decide_eq_true_eq] at h
  simp only [Label.isLetter, Bool.or_eq_false_iff, Bool.and_eq_false_iff, decide_eq_false_iff_not]
  omega

theorem isNumeric_of_isAsciiDigit (h : Decimal.isAsciiDigit c = true) : isNumeric c = true := by
  rw [isNumeric, h, Bool.true_or]

theorem ended_dropWhile (p : Char → Bool) (cs : List Char) : Ended p (cs.dropWhile p) := by
  intro c hc
  have hnot := List.head?_dropWhile_not p cs
  rw [hc] at hnot
  simpa using hnot

theorem ended_cons : Ended p (c :: rest) ↔ p c = false := by
  simp [Ended]

/-- A row of a class is taken as far as it goes. -/
theorem takeWhile_of_ended (hword : ∀ c ∈ word, p c = true) (hend : Ended p rest) :
    (word ++ rest).takeWhile p = word ∧ (word ++ rest).dropWhile p = rest := by
  rw [List.takeWhile_append_of_pos hword, List.dropWhile_append_of_pos hword]
  cases rest with
  | nil => simp
  | cons c rest => simp [ended_cons.mp hend]

end

/-! ### Signs -/

theorem signs_eq : signs = [(['+'], op .add), (['-'], op .sub), (['*'], op .mul), (['/'], op .div),
    (['='], op .eq), (['!', '='], op .ne), (['>'], op .gt), (['>', '='], op .ge), (['<'], op .lt),
    (['<', '='], op .le), (['('], leftParen), ([')'], rightParen), ([','], comma),
    ([':'], colon)] := by decide

theorem length_le_two : ∀ x ∈ signs, x.1.length ≤ 2 := by decide

/-- Only an equals sign makes a longer sign of a character. -/
theorem length_le_of_signs {c : Char} {rest : List Char}
    (h : ∀ tail, rest = '=' :: tail → c ≠ '>' ∧ c ≠ '<' ∧ c ≠ '!') :
    ∀ x ∈ signs, x.1 <+: [c] ++ rest → x.1.length ≤ [c].length := by
  rw [signs_eq]
  simp only [List.forall_mem_cons]
  cases rest with
  | nil => simp
  | cons d rest =>
    have := h rest
    simp only [List.singleton_append, List.cons_prefix_cons, List.nil_prefix]
    grind

/-! ### The front of a text -/

section

variable {cs word rest : List Char} {t : Token} {more : Nat}

/-- What stands between tokens starts none. -/
theorem front_of_isSpace {c : Char} (h : isSpace c = true) (cs : List Char) :
    front (c :: cs) = .stray := by
  simp only [isSpace, Bool.or_eq_true, decide_eq_true_eq] at h
  rcases h with (((rfl | rfl) | rfl) | rfl) | rfl <;> rfl

theorem Picks.ne_nil (h : Picks word rest t) : word ≠ [] := by
  cases h with
  | cell hl => simp [hl]
  | name hl => exact hl
  | number h =>
    obtain ⟨point, digit, more, rfl, -⟩ := h.starts
    simp
  | sign h =>
    rintro rfl
    revert h
    simp [signs, Operator.all, Operator.symbol]

/-- Letters, and the digits after them, are a cell or a name. -/
theorem wordFront_append {letters digits : List Char}
    (hletters : ∀ c ∈ letters, Label.isLetter c = true)
    (hdigits : ∀ c ∈ digits, Decimal.isAsciiDigit c = true)
    (hletter : Ended Label.isLetter (digits ++ rest)) (hdigit : Ended Decimal.isAsciiDigit rest) :
    wordFront (letters ++ (digits ++ rest)) =
      .token (if digits.isEmpty then name (String.ofList ((letters ++ digits).map Char.toUpper))
        else cell (String.ofList ((letters ++ digits).map Char.toUpper)))
        ((letters ++ digits).length - 1) := by
  obtain ⟨htake, hdrop⟩ := takeWhile_of_ended hletters hletter
  obtain ⟨htake', -⟩ := takeWhile_of_ended hdigits hdigit
  simp only [wordFront, htake, hdrop, htake', List.length_append]

/-- A text that starts with a letter is read as a word. -/
theorem front_of_letters {letters : List Char} (hl : letters ≠ [])
    (hletters : ∀ c ∈ letters, Label.isLetter c = true) :
    front (letters ++ rest) = wordFront (letters ++ rest) := by
  obtain ⟨c, letters, rfl⟩ := List.exists_cons_of_ne_nil hl
  simp [front, hletters c List.mem_cons_self]

/-- Digits and points are read as a number. -/
theorem NumeralRun.front_eq (h : NumeralRun word rest) : front (word ++ rest) =
    if word.count '.' ≤ 1 then .token (.number (String.ofList word)) (word.length - 1)
    else .malformed (String.ofList word) := by
  obtain ⟨htake, -⟩ := takeWhile_of_ended h.numeric h.ended
  have hnumber : front (word ++ rest) = numberFront (word ++ rest) := by
    obtain ⟨point, digit, more, rfl, rfl | rfl, hdigit⟩ := h.starts
    · simp [front, isLetter_of_isAsciiDigit hdigit, hdigit]
    · have hpoint : Label.isLetter '.' = false := rfl
      simp [front, hpoint, hdigit]
  rw [hnumber, numberFront]
  simp only [htake]

/-- A sign that no longer one fits is read. -/
theorem signFront_of_mem (h : (word, t) ∈ signs)
    (hlongest : ∀ x ∈ signs, x.1 <+: word ++ rest → x.1.length ≤ word.length) :
    front (word ++ rest) = .token t (word.length - 1) := by
  have hshort {c : Char} {t' : Token} (hlonger : ([c, '='], t') ∈ signs) (hword : word = [c]) :
      ∀ tail, rest ≠ '=' :: tail := by
    rintro tail rfl
    have := hlongest _ hlonger (by rw [hword]; exact ⟨tail, rfl⟩)
    simp [hword] at this
  rw [signs_eq] at h
  simp only [List.mem_cons, Prod.mk.injEq, List.not_mem_nil, or_false] at h
  rcases h with ⟨rfl, rfl⟩ | ⟨rfl, rfl⟩ | ⟨rfl, rfl⟩ | ⟨rfl, rfl⟩ | ⟨rfl, rfl⟩ | ⟨rfl, rfl⟩ |
    ⟨rfl, rfl⟩ | ⟨rfl, rfl⟩ | ⟨rfl, rfl⟩ | ⟨rfl, rfl⟩ | ⟨rfl, rfl⟩ | ⟨rfl, rfl⟩ | ⟨rfl, rfl⟩ |
    ⟨rfl, rfl⟩
  case inr.inr.inr.inr.inr.inr.inl =>
    have := @hshort '>' (op .ge) (by decide) rfl
    cases rest with
    | nil => rfl
    | cons c rest => simp_all [front, signFront, Label.isLetter, Decimal.isAsciiDigit]
  case inr.inr.inr.inr.inr.inr.inr.inr.inl =>
    have := @hshort '<' (op .le) (by decide) rfl
    cases rest with
    | nil => rfl
    | cons c rest => simp_all [front, signFront, Label.isLetter, Decimal.isAsciiDigit]
  all_goals rfl

/-- **The reader takes the token at the front.** -/
theorem Picks.front_eq (h : Picks word rest t) :
    front (word ++ rest) = .token t (word.length - 1) := by
  cases h with
  | @cell letters digits _ hl hd hletters hdigits hend =>
    have hletter : Ended Label.isLetter (digits ++ rest) := by
      obtain ⟨d, digits, rfl⟩ := List.exists_cons_of_ne_nil hd
      exact ended_cons.mpr (isLetter_of_isAsciiDigit (hdigits d List.mem_cons_self))
    rw [List.append_assoc, front_of_letters hl hletters,
      wordFront_append hletters hdigits hletter hend, if_neg (by simpa using hd)]
  | name hl hletters hend hno =>
    have h := @wordFront_append rest word [] hletters (by simp) hend hno
    rw [front_of_letters hl hletters]
    simpa using h
  | number h hcount => rw [h.front_eq, if_pos hcount]
  | sign h hlongest => exact signFront_of_mem h hlongest

/-- No token starts with a blank. -/
theorem Picks.exists_cons (h : Picks word rest t) :
    ∃ c tail, word = c :: tail ∧ isSpace c = false := by
  obtain ⟨c, tail, rfl⟩ := List.exists_cons_of_ne_nil h.ne_nil
  refine ⟨c, tail, rfl, ?_⟩
  by_contra hspace
  cases h.front_eq.symm.trans (front_of_isSpace (by simpa using hspace) _)

theorem NumeralRun.exists_cons (h : NumeralRun word rest) :
    ∃ c tail, word = c :: tail ∧ isSpace c = false := by
  obtain ⟨c, tail, rfl⟩ : ∃ c tail, word = c :: tail := by
    obtain ⟨point, digit, more, rfl, -⟩ := h.starts
    exact List.exists_cons_of_ne_nil (by simp)
  refine ⟨c, tail, rfl, ?_⟩
  by_contra hspace
  have hfront := h.front_eq.symm.trans (front_of_isSpace (by simpa using hspace) _)
  split_ifs at hfront

/-- A row of a class, as far as it goes. -/
theorem exists_row (p : Char → Bool) (cs : List Char) :
    ∃ word rest, cs = word ++ rest ∧ (∀ c ∈ word, p c = true) ∧ Ended p rest :=
  ⟨_, _, List.takeWhile_append_dropWhile.symm, fun _ hc => List.mem_takeWhile_imp hc,
    ended_dropWhile p cs⟩

theorem exists_picks_of_letter {c : Char} (hc : Label.isLetter c = true) (cs : List Char) :
    ∃ word rest t, c :: cs = word ++ rest ∧ Picks word rest t := by
  obtain ⟨letters, rest, hcs, hletters, hend⟩ := exists_row Label.isLetter (c :: cs)
  have hl : letters ≠ [] := by
    rintro rfl
    rw [List.nil_append] at hcs
    exact absurd hc (by simp [ended_cons.mp (hcs ▸ hend)])
  obtain ⟨digits, rest, rfl, hdigits, hend'⟩ := exists_row Decimal.isAsciiDigit rest
  by_cases hd : digits = []
  · subst hd
    exact ⟨letters, rest, _, hcs, .name hl hletters hend hend'⟩
  · exact ⟨letters ++ digits, rest, _, by rw [hcs, List.append_assoc],
      .cell hl hd hletters hdigits hend'⟩

theorem exists_numeralRun {c : Char} {cs : List Char} (h : (Decimal.isAsciiDigit c ||
    (c = '.' && cs.head?.any Decimal.isAsciiDigit)) = true) :
    ∃ word rest, c :: cs = word ++ rest ∧ NumeralRun word rest := by
  refine ⟨(c :: cs).takeWhile isNumeric, (c :: cs).dropWhile isNumeric,
    List.takeWhile_append_dropWhile.symm, ?_, fun d hd => List.mem_takeWhile_imp hd,
    ended_dropWhile _ _⟩
  rcases Bool.or_eq_true_iff.mp h with hc | hc
  · refine ⟨[], c, cs.takeWhile isNumeric, ?_, Or.inl rfl, hc⟩
    rw [List.takeWhile_cons_of_pos (isNumeric_of_isAsciiDigit hc), List.nil_append]
  · rw [Bool.and_eq_true, decide_eq_true_eq, Option.any_eq_true] at hc
    obtain ⟨rfl, d, hd, hdigit⟩ := hc
    obtain ⟨cs, rfl⟩ := List.head?_eq_some_iff.mp hd
    refine ⟨['.'], d, cs.takeWhile isNumeric, ?_, Or.inr rfl, hdigit⟩
    rw [List.takeWhile_cons_of_pos rfl,
      List.takeWhile_cons_of_pos (isNumeric_of_isAsciiDigit hdigit), List.singleton_append]

theorem exists_sign (cs : List Char) : signFront cs = .stray ∨
    ∃ word rest t, cs = word ++ rest ∧ Picks word rest t := by
  have hone {c : Char} (t : Token) {rest : List Char} (hmem : ([c], t) ∈ signs)
      (h : ∀ tail, rest = '=' :: tail → c ≠ '>' ∧ c ≠ '<' ∧ c ≠ '!') :
      ∃ word rest' t', c :: rest = word ++ rest' ∧ Picks word rest' t' :=
    ⟨[c], rest, t, rfl, .sign hmem (length_le_of_signs h)⟩
  have htwo {c d : Char} (t : Token) {rest : List Char} (hmem : ([c, d], t) ∈ signs) :
      ∃ word rest' t', c :: d :: rest = word ++ rest' ∧ Picks word rest' t' :=
    ⟨[c, d], rest, t, rfl, .sign hmem fun x hx _ => length_le_two x hx⟩
  unfold signFront
  split
  · exact Or.inr (htwo (op .ge) (by decide))
  · exact Or.inr (htwo (op .le) (by decide))
  · exact Or.inr (htwo (op .ne) (by decide))
  · next h =>
    exact Or.inr (hone (op .gt) (by decide) (by grind))
  · next h => exact Or.inr (hone (op .lt) (by decide) (by grind))
  · exact Or.inr (hone (op .eq) (by decide) fun _ _ => by decide)
  · exact Or.inr (hone (op .add) (by decide) fun _ _ => by decide)
  · exact Or.inr (hone (op .sub) (by decide) fun _ _ => by decide)
  · exact Or.inr (hone (op .mul) (by decide) fun _ _ => by decide)
  · exact Or.inr (hone (op .div) (by decide) fun _ _ => by decide)
  · exact Or.inr (hone leftParen (by decide) fun _ _ => by decide)
  · exact Or.inr (hone rightParen (by decide) fun _ _ => by decide)
  · exact Or.inr (hone comma (by decide) fun _ _ => by decide)
  · exact Or.inr (hone colon (by decide) fun _ _ => by decide)
  · exact Or.inl rfl

/-- A text starts with a token, with a numeral of too many points, or with a stray character. -/
theorem front_cases (cs : List Char) :
    (∃ word rest t, cs = word ++ rest ∧ Picks word rest t) ∨
      (∃ word rest, cs = word ++ rest ∧ NumeralRun word rest ∧ 1 < word.count '.') ∨
        front cs = .stray := by
  unfold front
  split
  · exact Or.inr (Or.inr rfl)
  · next c cs =>
    split_ifs with hletter hnumeric
    · exact Or.inl (exists_picks_of_letter hletter cs)
    · obtain ⟨word, rest, hcs, hrun⟩ := exists_numeralRun hnumeric
      rcases Nat.lt_or_ge 1 (word.count '.') with hcount | hcount
      · exact Or.inr (Or.inl ⟨word, rest, hcs, hrun, hcount⟩)
      · exact Or.inl ⟨word, rest, _, hcs, .number hrun hcount⟩
    · exact (exists_sign (c :: cs)).elim (fun h => Or.inr (Or.inr h)) Or.inl

/-- **A token is read** if it is at the front. -/
theorem front_eq_token_iff : front cs = .token t more ↔
    ∃ word rest, cs = word ++ rest ∧ word.length = more + 1 ∧ Picks word rest t := by
  constructor
  · intro h
    rcases front_cases cs with ⟨word, rest, t', rfl, hpicks⟩ | ⟨word, rest, rfl, hrun, hcount⟩ | hs
    · have hlen := List.length_pos_iff.mpr hpicks.ne_nil
      obtain ⟨rfl, rfl⟩ := Front.token.inj (hpicks.front_eq.symm.trans h)
      exact ⟨word, rest, rfl, by omega, hpicks⟩
    · rw [hrun.front_eq, if_neg (by omega)] at h
      cases h
    · cases hs.symm.trans h
  · rintro ⟨word, rest, rfl, hlen, hpicks⟩
    rw [hpicks.front_eq, hlen, Nat.add_sub_cancel]

/-- **A numeral is refused** for its points. -/
theorem front_eq_malformed_iff {text : String} : front cs = .malformed text ↔
    ∃ word rest, cs = word ++ rest ∧ NumeralRun word rest ∧ 1 < word.count '.' ∧
      text = String.ofList word := by
  constructor
  · intro h
    rcases front_cases cs with ⟨word, rest, t', rfl, hpicks⟩ | ⟨word, rest, rfl, hrun, hcount⟩ | hs
    · cases hpicks.front_eq.symm.trans h
    · rw [hrun.front_eq, if_neg (by omega)] at h
      exact ⟨word, rest, rfl, hrun, hcount, (Front.malformed.inj h).symm⟩
    · cases hs.symm.trans h
  · rintro ⟨word, rest, rfl, hrun, hcount, rfl⟩
    rw [hrun.front_eq, if_neg (by omega)]

/-- **A character is refused** if it starts neither a token nor a numeral. -/
theorem front_eq_stray_iff : front cs = .stray ↔ ¬ Starts cs := by
  constructor
  · rintro h ⟨word, rest, rfl, ⟨t, hpicks⟩ | hrun⟩
    · cases hpicks.front_eq.symm.trans h
    · rw [hrun.front_eq] at h
      split_ifs at h
  · intro h
    rcases front_cases cs with ⟨word, rest, t, hcs, hpicks⟩ | ⟨word, rest, hcs, hrun, -⟩ | hs
    · exact absurd ⟨word, rest, hcs, Or.inl ⟨t, hpicks⟩⟩ h
    · exact absurd ⟨word, rest, hcs, Or.inr hrun⟩ h
    · exact hs

end

end Spreadsheet.Token
