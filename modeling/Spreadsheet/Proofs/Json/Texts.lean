import Spreadsheet.Json.Token
import Spreadsheet.Json.Writing
import Mathlib.Tactic.SplitIfs

/-! # Texts in JSON

A text is written with escapes, and the reader takes the code of each escape (`codesFrom_flatMap`).
A character beyond U+FFFF is two surrogates on the way, which are joined again; so every text is read
back, whatever its characters (`joinSurrogates_units`). What is written is printable ASCII. -/

namespace Spreadsheet

namespace Text

/-! ### Hexadecimal numerals -/

theorem hex_four {n : Nat} (h : n < 0x10000) : hex 4 n = [(n / 0x1000).digitChar,
    (n / 0x100 % 16).digitChar, (n / 0x10 % 16).digitChar, (n % 16).digitChar] := by
  have hlast : ∀ {m : Nat}, m < 16 → padZeros 1 (Nat.toDigits 16 m) = [m.digitChar] := fun hm => by
    rw [Nat.toDigits_of_lt_base hm]
    rfl
  have hstep : ∀ w m, padZeros (w + 2) (Nat.toDigits 16 m)
      = padZeros (w + 1) (Nat.toDigits 16 (m / 16)) ++ [(m % 16).digitChar] := fun w m => by
    rcases Nat.lt_or_ge m 16 with hm | hm
    · rw [Nat.toDigits_of_lt_base hm, Nat.div_eq_of_lt hm, Nat.mod_eq_of_lt hm, Nat.toDigits_zero]
      simp only [padZeros, List.length_singleton, Nat.add_sub_cancel]
      rw [show w + 2 - 1 = w + 1 by omega, List.replicate_succ']
    · rw [Nat.toDigits_of_base_le (by omega) hm]
      simp only [padZeros, List.length_append, List.length_singleton]
      rw [show w + 2 - ((Nat.toDigits 16 (m / 16)).length + 1)
        = w + 1 - (Nat.toDigits 16 (m / 16)).length by omega, List.append_assoc]
  rw [hex, hstep 2, hstep 1, hstep 0, hlast (by omega)]
  simp only [Nat.div_div_eq_div_mul, List.cons_append, List.nil_append]

theorem hexValue?_digitChar : ∀ d < 16, hexValue? d.digitChar = some d := by decide

theorem toNat_digitChar : ∀ d < 16, 0x20 ≤ d.digitChar.toNat ∧ d.digitChar.toNat < 0x7f := by
  decide

end Text

namespace Json

/-! ### The codes of characters -/

/-- A character of printable ASCII. -/
def IsPrintable (c : Char) : Prop :=
  0x20 ≤ c.toNat ∧ c.toNat < 0x7f

instance (c : Char) : Decidable (IsPrintable c) := inferInstanceAs (Decidable (_ ∧ _))

theorem isPrintable_of_all {text : List Char} (h : text.all (fun c => decide (IsPrintable c)) = true) :
    ∀ c ∈ text, IsPrintable c := fun c hc =>
  of_decide_eq_true (List.all_eq_true.mp h c hc)

/-- The codes that a character is written with: two surrogates beyond U+FFFF. -/
def units (c : Char) : List Nat :=
  if c.toNat < 0x10000 then [c.toNat]
  else [0xd800 + (c.toNat - 0x10000) / 0x400, 0xdc00 + (c.toNat - 0x10000) % 0x400]

theorem toNat_lt (c : Char) : c.toNat < 0x110000 := by
  rcases c.valid with h | ⟨-, h⟩
  · exact Nat.lt_trans h (by decide)
  · exact h

theorem units_lt (c : Char) : ∀ n ∈ units c, n < 0x10000 := by
  have hc := toNat_lt c
  unfold units
  split
  · simpa using ‹_›
  · simp only [List.forall_mem_cons, List.not_mem_nil, false_implies, implies_true, and_true]
    omega

theorem joinSurrogates_cons (c : Char) (codes : List Nat) :
    joinSurrogates (c.toNat :: codes) = c :: joinSurrogates codes := by
  cases codes with
  | nil => simp [joinSurrogates, charOfCode_toNat]
  | cons n codes => simp [joinSurrogates, not_surrogate c, charOfCode_toNat]

/-- **The codes of a text** give the text back. -/
theorem joinSurrogates_units (cs : List Char) : joinSurrogates (cs.flatMap units) = cs := by
  induction cs with
  | nil => rfl
  | cons c cs ih =>
    rw [List.flatMap_cons, units]
    split
    · rw [List.singleton_append, joinSurrogates_cons, ih]
    · have hc := toNat_lt c
      have hhigh : isHighSurrogate (0xd800 + (c.toNat - 0x10000) / 0x400) = true := by
        simp only [isHighSurrogate, Bool.and_eq_true, decide_eq_true_eq]
        omega
      have hlow : isLowSurrogate (0xdc00 + (c.toNat - 0x10000) % 0x400) = true := by
        simp only [isLowSurrogate, Bool.and_eq_true, decide_eq_true_eq]
        omega
      rw [List.cons_append, List.cons_append, List.nil_append, joinSurrogates, hhigh, hlow, ih]
      rw [show 0x10000 + (0xd800 + (c.toNat - 0x10000) / 0x400 - 0xd800) * 0x400
        + (0xdc00 + (c.toNat - 0x10000) % 0x400 - 0xdc00) = c.toNat by omega, Char.ofNat_toNat]
      rfl

/-! ### Escapes -/

/-- A character is written as a short escape, as itself, or as the escapes of its codes. -/
theorem escapedChar_cases (c : Char) :
    (∃ d, escapedChar c = ['\\', d] ∧ IsPrintable d ∧ d ≠ 'u' ∧ shortEscapes.lookup d = some c ∧
      units c = [c.toNat]) ∨
    (escapedChar c = [c] ∧ IsPrintable c ∧ c ≠ '"' ∧ c ≠ '\\' ∧ units c = [c.toNat]) ∨
    escapedChar c = (units c).flatMap escapedCode := by
  unfold escapedChar
  split_ifs with hquote hn hr ht hb hf hplain hsmall
  · left
    rcases (by simpa using hquote : c = '"' ∨ c = '\\') with rfl | rfl
    · exact ⟨'"', by decide⟩
    · exact ⟨'\\', by decide⟩
  · exact .inl ⟨'n', by subst hn; decide⟩
  · exact .inl ⟨'r', by subst hr; decide⟩
  · exact .inl ⟨'t', by subst ht; decide⟩
  · exact .inl ⟨'b', by subst hb; decide⟩
  · exact .inl ⟨'f', by subst hf; decide⟩
  · simp only [Bool.or_eq_true, decide_eq_true_eq, not_or] at hquote
    simp only [Bool.and_eq_true, decide_eq_true_eq] at hplain
    exact .inr (.inl ⟨rfl, hplain, hquote.1, hquote.2, if_pos (by omega)⟩)
  · rw [units, if_pos hsmall]
    exact .inr (.inr (List.append_nil _).symm)
  · have hunits : (units c).flatMap escapedCode
        = escapedCode (0xd800 + (c.toNat - 0x10000) / 0x400)
          ++ escapedCode (0xdc00 + (c.toNat - 0x10000) % 0x400) := by
      rw [units, if_neg hsmall, List.flatMap_cons, List.flatMap_singleton]
    exact .inr (.inr hunits.symm)

theorem codesFrom_escapedCode {n : Nat} (h : n < 0x10000) (met : List Nat) (count : Nat)
    (rest : List Char) : codesFrom met count .plain (escapedCode n ++ rest)
      = codesFrom (n :: met) (count + (escapedCode n).length) .plain rest := by
  have hvalue : (((0 * 16 + n / 0x1000) * 16 + n / 0x100 % 16) * 16 + n / 0x10 % 16) * 16 + n % 16
      = n := by omega
  rw [escapedCode, Text.hex_four h]
  simp only [List.cons_append, List.nil_append]
  simp only [codesFrom, Text.hexValue?_digitChar (n / 0x1000) (by omega),
    Text.hexValue?_digitChar (n / 0x100 % 16) (by omega),
    Text.hexValue?_digitChar (n / 0x10 % 16) (by omega),
    Text.hexValue?_digitChar (n % 16) (by omega), hvalue]
  rfl

theorem codesFrom_escapedCodes {codes : List Nat} (h : ∀ n ∈ codes, n < 0x10000) (met : List Nat)
    (count : Nat) (rest : List Char) : codesFrom met count .plain (codes.flatMap escapedCode ++ rest)
      = codesFrom (codes.reverse ++ met) (count + (codes.flatMap escapedCode).length) .plain rest := by
  induction codes generalizing met count with
  | nil => rfl
  | cons n codes ih =>
    obtain ⟨hn, hcodes⟩ := List.forall_mem_cons.mp h
    rw [List.flatMap_cons, List.append_assoc, codesFrom_escapedCode hn, ih hcodes]
    simp [Nat.add_assoc]

theorem codesFrom_escapedChar (c : Char) (met : List Nat) (count : Nat) (rest : List Char) :
    codesFrom met count .plain (escapedChar c ++ rest)
      = codesFrom ((units c).reverse ++ met) (count + (escapedChar c).length) .plain rest := by
  rcases escapedChar_cases c with ⟨d, htext, -, hd, hlookup, hunits⟩ | ⟨htext, hc, hquote, hback, hunits⟩
    | htext
  · rw [htext, hunits]
    simp only [List.cons_append, List.nil_append, codesFrom]
    rw [if_neg (by decide), if_pos trivial, if_neg hd, hlookup]
    rfl
  · rw [htext, hunits, List.singleton_append, codesFrom, if_neg hquote, if_neg hback,
      if_neg (Nat.not_lt.mpr hc.1)]
    rfl
  · rw [htext]
    exact codesFrom_escapedCodes (units_lt c) met count rest

theorem codesFrom_flatMap (cs : List Char) (met : List Nat) (count : Nat) (rest : List Char) :
    codesFrom met count .plain (cs.flatMap escapedChar ++ '"' :: rest)
      = some (met.reverse ++ cs.flatMap units, count + (cs.flatMap escapedChar).length + 1) := by
  induction cs generalizing met count with
  | nil => simp [codesFrom]
  | cons c cs ih =>
    rw [List.flatMap_cons, List.append_assoc, codesFrom_escapedChar, ih]
    simp [Nat.add_assoc]

/-- **A written text is read back**, however it goes on after the closing quote. -/
theorem front?_textLiteral (s : String) (rest : List Char) :
    Token.front? ((textLiteral s).toList ++ rest)
      = some (.text s, (textLiteral s).toList.length - 1) := by
  have hlist : (textLiteral s).toList = '"' :: (s.toList.flatMap escapedChar ++ ['"']) := by
    rw [textLiteral, String.toList_ofList]
    rfl
  have hcodes := codesFrom_flatMap s.toList [] 0 rest
  rw [hlist, List.cons_append, List.append_assoc, Token.front?]
  rw [List.singleton_append, hcodes]
  simp [joinSurrogates_units]

/-! ### Printable characters -/

theorem isPrintable_escapedCode {n : Nat} (h : n < 0x10000) :
    ∀ c ∈ escapedCode n, IsPrintable c := by
  rw [escapedCode, Text.hex_four h]
  simp only [List.forall_mem_cons]
  refine ⟨by decide, by decide, Text.toNat_digitChar _ (by omega), Text.toNat_digitChar _ (by omega),
    Text.toNat_digitChar _ (by omega), Text.toNat_digitChar _ (by omega), by simp⟩

theorem isPrintable_escapedChar (c : Char) : ∀ d ∈ escapedChar c, IsPrintable d := by
  rcases escapedChar_cases c with ⟨d, htext, hd, -⟩ | ⟨htext, hc, -⟩ | htext
  · rw [htext]
    exact List.forall_mem_cons.mpr ⟨by decide, List.forall_mem_singleton.mpr hd⟩
  · rw [htext]
    exact List.forall_mem_singleton.mpr hc
  · rw [htext]
    intro d hd
    obtain ⟨n, hn, hd⟩ := List.mem_flatMap.mp hd
    exact isPrintable_escapedCode (units_lt c n hn) d hd

theorem isPrintable_textLiteral (s : String) : ∀ c ∈ (textLiteral s).toList, IsPrintable c := by
  rw [textLiteral, String.toList_ofList]
  intro c hc
  simp only [List.cons_append, List.mem_cons, List.mem_append, List.mem_flatMap,
    List.not_mem_nil, or_false] at hc
  rcases hc with rfl | ⟨d, -, hd⟩ | rfl
  · decide
  · exact isPrintable_escapedChar d c hd
  · decide

end Json

end Spreadsheet
