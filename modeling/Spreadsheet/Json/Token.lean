import Spreadsheet.Decimal.Reading
import Spreadsheet.Text.Hex
import Spreadsheet.Value.Basic

/-!
# Tokens of JSON

The punctuation, texts, words and numbers of JSON. The words include `NaN` and the infinities.
A number with a point or an exponent is a floating point number, another one an integer. In a text,
characters below U+0020 have to be escaped, and two escaped surrogates make one character; a
surrogate without its partner reads as U+FFFD.

Main statement: `joinSurrogates_map_toNat` (characters that are not escaped are kept).
-/

namespace Spreadsheet.Json

/-- A token of JSON. -/
inductive Token where
  | openList
  | closeList
  | openMap
  | closeMap
  | comma
  | colon
  | text (s : String)
  | word (v : Scalar)
  | integer (negative : Bool) (digits : List Char)
  | decimal (x : Binary64)
  deriving DecidableEq, Repr

/-- May the character stand between tokens? -/
def isSpace (c : Char) : Bool :=
  c = ' ' || c = '\t' || c = '\n' || c = '\r'

/-! ### Texts -/

/-- Where the reader of a text stands: at a character, after a backslash, or in an escape that
still needs `owed + 1` hexadecimal digits. -/
inductive Within where
  | plain
  | escape
  | code (owed value : Nat)

/-- The character that stands after a backslash for another one, and the one that it stands for. -/
def shortEscapes : List (Char × Char) :=
  [('"', '"'), ('\\', '\\'), ('/', '/'), ('b', '\x08'), ('f', '\x0c'), ('n', '\n'), ('r', '\r'),
    ('t', '\t')]

/-- The codes in a text up to its closing quote, after those already met (last first), and how many
characters have been read. -/
def codesFrom (met : List Nat) (count : Nat) : Within → List Char → Option (List Nat × Nat)
  | _, [] => none
  | .plain, c :: rest =>
    if c = '"' then some (met.reverse, count + 1)
    else if c = '\\' then codesFrom met (count + 1) .escape rest
    else if c.toNat < 0x20 then none
    else codesFrom (c.toNat :: met) (count + 1) .plain rest
  | .escape, c :: rest =>
    if c = 'u' then codesFrom met (count + 1) (.code 3 0) rest
    else match shortEscapes.lookup c with
      | some d => codesFrom (d.toNat :: met) (count + 1) .plain rest
      | none => none
  | .code owed value, c :: rest =>
    match Text.hexValue? c, owed with
    | none, _ => none
    | some d, 0 => codesFrom ((value * 16 + d) :: met) (count + 1) .plain rest
    | some d, owed + 1 => codesFrom met (count + 1) (.code owed (value * 16 + d)) rest

/-- Is the code a surrogate that a second one has to follow? -/
def isHighSurrogate (n : Nat) : Bool :=
  0xd800 ≤ n && n < 0xdc00

/-- Is the code a surrogate that has to follow another one? -/
def isLowSurrogate (n : Nat) : Bool :=
  0xdc00 ≤ n && n < 0xe000

/-- The character of a code; U+FFFD for a surrogate. -/
def charOfCode (n : Nat) : Char :=
  if isHighSurrogate n || isLowSurrogate n then '\uFFFD' else Char.ofNat n

/-- The characters of codes, two surrogates that belong together being one character. -/
def joinSurrogates : List Nat → List Char
  | [] => []
  | [n] => [charOfCode n]
  | n :: m :: rest =>
    if isHighSurrogate n && isLowSurrogate m then
      Char.ofNat (0x10000 + (n - 0xd800) * 0x400 + (m - 0xdc00)) :: joinSurrogates rest
    else charOfCode n :: joinSurrogates (m :: rest)

/-! ### Numbers -/

/-- The digits that a number without its sign starts with: a zero, or digits that start with
none. -/
def wholeDigits (cs : List Char) : List Char :=
  match cs with
  | '0' :: _ => ['0']
  | _ => cs.takeWhile Decimal.isAsciiDigit

/-- A point with at least one digit after it, if the text starts so. -/
def fractionPart : List Char → List Char
  | '.' :: rest =>
    let digits := rest.takeWhile Decimal.isAsciiDigit
    if digits.isEmpty then [] else '.' :: digits
  | _ => []

/-- An exponent with at least one digit, if the text starts so. -/
def exponentPart : List Char → List Char
  | c :: rest =>
    let sign := (rest.take 1).filter fun d => d = '+' || d = '-'
    let digits := (rest.drop sign.length).takeWhile Decimal.isAsciiDigit
    if (c = 'e' || c = 'E') && !digits.isEmpty then c :: sign ++ digits else []
  | [] => []

/-- The number that a text starts with, and the count of its characters. -/
def number? (cs : List Char) : Option (Token × Nat) :=
  let sign := (cs.take 1).filter (· = '-')
  let rest := cs.drop sign.length
  let whole := wholeDigits rest
  let fraction := fractionPart (rest.drop whole.length)
  let exponent := exponentPart (rest.drop (whole.length + fraction.length))
  let text := sign ++ whole ++ fraction ++ exponent
  if whole.isEmpty then none
  else if fraction.isEmpty && exponent.isEmpty then
    some (.integer (!sign.isEmpty) whole, text.length)
  else (Decimal.read? text).map fun x => (.decimal x, text.length)

/-! ### The front of a text -/

/-- The words with what they stand for. -/
def words : List (List Char × Scalar) :=
  [("null".toList, .null), ("true".toList, .bool true), ("false".toList, .bool false),
    ("NaN".toList, .float .nan), ("Infinity".toList, .float (.inf false)),
    ("-Infinity".toList, .float (.inf true))]

/-- The word that a text starts with, and the count of its characters. -/
def word? (cs : List Char) : Option (Token × Nat) :=
  (words.find? fun (word, _) => word.isPrefixOf cs).map fun (word, v) => (.word v, word.length)

/-- The token that a text starts with, and how many characters it has after its first one. -/
def Token.front? : List Char → Option (Token × Nat)
  | '[' :: _ => some (.openList, 0)
  | ']' :: _ => some (.closeList, 0)
  | '\x7b' :: _ => some (.openMap, 0)
  | '\x7d' :: _ => some (.closeMap, 0)
  | ',' :: _ => some (.comma, 0)
  | ':' :: _ => some (.colon, 0)
  | '"' :: rest =>
    (codesFrom [] 0 .plain rest).map fun (codes, count) =>
      (.text (String.ofList (joinSurrogates codes)), count)
  | cs => (word? cs <|> number? cs).map fun (t, count) => (t, count - 1)

theorem not_surrogate (c : Char) :
    isHighSurrogate c.toNat = false ∧ isLowSurrogate c.toNat = false := by
  have h : c.toNat < 0xd800 ∨ 0xdfff < c.toNat := by
    rcases c.valid with h | ⟨h, -⟩
    · exact .inl h
    · exact .inr h
  simp only [isHighSurrogate, isLowSurrogate, Bool.and_eq_false_iff, decide_eq_false_iff_not]
  omega

theorem charOfCode_toNat (c : Char) : charOfCode c.toNat = c := by
  simp [charOfCode, not_surrogate c]

theorem joinSurrogates_map_toNat (cs : List Char) :
    joinSurrogates (cs.map Char.toNat) = cs := by
  induction cs with
  | nil => rfl
  | cons c rest ih =>
    cases rest with
    | nil => simp [joinSurrogates, charOfCode_toNat]
    | cons d rest =>
      simp only [List.map_cons] at ih ⊢
      simp [joinSurrogates, not_surrogate c, charOfCode_toNat, ih]

end Spreadsheet.Json
