import Spreadsheet.Value.Basic

/-!
# Literal texts that look like formulas

A text in a cell is a formula if it starts with `=`. A literal text that would be taken for one is
kept with an apostrophe before it, and so is one that already has such an apostrophe, so that
every text can be kept and read back.

Main statements: `isFormula_quoteLiteral` (what is kept as a literal is no formula) and
`literalValue_quoteLiteral` (it reads back as itself).
-/

namespace Spreadsheet.Scalar

/-- Is it a text that is a formula after apostrophes at its start, or without any? -/
def isEscaped : Scalar → Bool
  | text s => (text (String.ofList (s.toList.dropWhile (· = '\'')))).isFormula
  | _ => false

/-- The scalar as a literal cell keeps it. -/
def quoteLiteral : Scalar → Scalar
  | text s => if (text s).isEscaped then text ("'" ++ s) else text s
  | v => v

/-- The scalar that a literal cell reads as. -/
def literalValue : Scalar → Scalar
  | text s =>
    match s.toList with
    | '\'' :: rest => if (text s).isEscaped then text (String.ofList rest) else text s
    | _ => text s
  | v => v

/-- A formula without the blanks around it; anything else as it is. -/
def trimFormula : Scalar → Scalar
  | text s => if (text s).isFormula then text (Text.trim s) else text s
  | v => v

/-- The scalar as it is entered into a cell; nothing and the empty text leave the cell empty. -/
def entered? : Scalar → Option Scalar
  | null => none
  | text s => if s.isEmpty then none else some (text s).trimFormula
  | v => some v

theorem isEscaped_cons (s : String) : (text ("'" ++ s)).isEscaped = (text s).isEscaped := by
  simp [isEscaped]

theorem isFormula_quoteLiteral (v : Scalar) : v.quoteLiteral.isFormula = false := by
  cases v with
  | text s =>
    simp only [quoteLiteral]
    split
    · simp [isFormula, Text.isBlank]
    · next h =>
      simp only [isFormula, decide_eq_false_iff_not]
      intro hs
      apply h
      cases hl : s.toList with
      | nil => simp [hl] at hs
      | cons c rest =>
        by_cases hq : c = '\''
        · subst hq
          rw [hl] at hs
          simp [Text.isBlank] at hs
        · simp_all [isEscaped, isFormula]
  | _ => rfl

theorem literalValue_quoteLiteral (v : Scalar) : v.quoteLiteral.literalValue = v := by
  cases v with
  | text s =>
    simp only [quoteLiteral]
    split
    · next h =>
      have he := isEscaped_cons s
      rw [h] at he
      simp [literalValue, he]
    · next h =>
      simp only [literalValue]
      split <;> simp_all
  | _ => rfl

end Spreadsheet.Scalar
