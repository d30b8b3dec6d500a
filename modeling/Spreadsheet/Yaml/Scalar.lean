import Spreadsheet.Json.Token

/-!
# Scalars of YAML

How far a scalar reaches in a text, and the characters that it holds. A scalar may go on over lines:
the blanks around a line break are dropped, one break reads as a space, and of several the first is
dropped. The separators of lines and paragraphs break lines too, but are kept as they are. Each
reader gives the characters of the scalar and how many characters of the text it takes.
-/

namespace Spreadsheet.Yaml

/-! ### Characters -/

/-- Does the character end a line? -/
def isBreak (c : Char) : Bool :=
  c = '\n' || c = '\r' || c.toNat = 0x85 || c.toNat = 0x2028 || c.toNat = 0x2029

/-- What a character that ends a line reads as. -/
def lineEnd (c : Char) : Char :=
  if c.toNat = 0x2028 || c.toNat = 0x2029 then c else '\n'

/-- Does the text end here, or go on with a blank or a line break? -/
def isGap : List Char → Bool
  | [] => true
  | c :: _ => c = ' ' || c = '\t' || isBreak c

/-- Does a separator of documents start here, at the start of a line? -/
def isSeparator : List Char → Bool
  | '-' :: '-' :: '-' :: rest => isGap rest
  | '.' :: '.' :: '.' :: rest => isGap rest
  | _ => false

/-- Is the character a bracket of a list or a map in line, or a comma? -/
def isFlow (c : Char) : Bool :=
  c = ',' || c = '[' || c = ']' || c = '\x7b' || c = '\x7d'

/-! ### Gaps -/

/-- What stands between two runs of characters of a scalar: blanks on one line (last first), or
line breaks, after the last of which `column` blanks have been read. An escaped break is none of its
own. The breaks after the first come last first. -/
inductive Gap where
  | blanks (cs : List Char)
  | breaks (first : Char) (later : List Char) (column : Nat)
  | escaped (later : List Char)

/-- The characters that a gap reads as, backwards. -/
def Gap.folded : Gap → List Char
  | blanks cs => cs
  | breaks first later _ =>
    if first ≠ '\n' then later ++ [first] else if later.isEmpty then [' '] else later
  | escaped later => later

/-- The gap after one more blank. -/
def Gap.blank (c : Char) : Gap → Gap
  | blanks cs => blanks (c :: cs)
  | breaks first later column => breaks first later (column + 1)
  | escaped later => escaped later

/-- The gap after one more character that ends a line. -/
def Gap.lineBreak (c : Char) : Gap → Gap
  | blanks _ => breaks (lineEnd c) [] 0
  | breaks first later _ => breaks first (lineEnd c :: later) 0
  | escaped later => escaped (lineEnd c :: later)

/-- Is nothing in the gap? -/
def Gap.isNothing : Gap → Bool
  | blanks [] => true
  | _ => false

/-- May a plain scalar go on after the gap, at the least column that it may have on a new line? In
a list or a map in line every column will do. -/
def Gap.admits (inLine : Bool) (least : Nat) : Gap → Bool
  | breaks _ _ column => inLine || least ≤ column
  | _ => true

/-! ### Plain scalars -/

/-- Does a plain scalar end before a text? A colon ends it if a gap follows. -/
def endsPlain (inLine : Bool) : List Char → Bool
  | [] => true
  | ':' :: rest => isGap rest || inLine && rest.head?.any isFlow
  | c :: _ => c = '\t' || inLine && (isFlow c || c = '?')

/-- Reads on in a plain scalar: its characters so far (last first), how many characters of the text
it takes so far, the gap after them, and how many have been read with the gap. -/
def plainFrom (inLine : Bool) (least : Nat) (met : List Char) (taken : Nat) (gap : Gap)
    (count : Nat) : List Char → List Char × Nat
  | [] => (met.reverse, taken)
  | c :: rest =>
    if c = ' ' then plainFrom inLine least met taken (gap.blank c) (count + 1) rest
    else if isBreak c then
      if isSeparator rest then (met.reverse, taken)
      else plainFrom inLine least met taken (gap.lineBreak c) (count + 1) rest
    else if endsPlain inLine (c :: rest) || (c = '#' && !gap.isNothing) ||
        !gap.admits inLine least then
      (met.reverse, taken)
    else
      plainFrom inLine least (c :: gap.folded ++ met) (count + 1) (.blanks []) (count + 1) rest

/-- The plain scalar that a text starts with. -/
def plain (inLine : Bool) (least : Nat) (cs : List Char) : List Char × Nat :=
  plainFrom inLine least [] 0 (.blanks []) 0 cs

/-- May a plain scalar start a text? -/
def startsPlain (inLine : Bool) : List Char → Bool
  | [] => false
  | '-' :: rest => !isGap rest
  | '?' :: rest | ':' :: rest => !inLine && !isGap rest
  | c :: rest => !isGap (c :: rest) && !isFlow c && !"#&*!|>'\"%@`".toList.contains c

/-! ### Quoted scalars -/

/-- Reads on in a scalar between single quotes, in which two quotes stand for one. -/
def singleFrom (met : List Char) (gap : Gap) (count : Nat) : List Char → Option (List Char × Nat)
  | [] => none
  | '\'' :: '\'' :: rest => singleFrom ('\'' :: gap.folded ++ met) (.blanks []) (count + 2) rest
  | '\'' :: _ => some ((gap.folded ++ met).reverse, count + 1)
  | c :: rest =>
    if c = ' ' || c = '\t' then singleFrom met (gap.blank c) (count + 1) rest
    else if isBreak c then
      if isSeparator rest then none else singleFrom met (gap.lineBreak c) (count + 1) rest
    else singleFrom (c :: gap.folded ++ met) (.blanks []) (count + 1) rest

/-- The character that stands after a backslash for another one, and the one that it stands for. -/
def shortEscapes : List (Char × Char) :=
  [('0', '\x00'), ('a', '\x07'), ('b', '\x08'), ('t', '\t'), ('\t', '\t'), ('n', '\n'),
    ('v', '\x0b'), ('f', '\x0c'), ('r', '\r'), ('e', '\x1b'), (' ', ' '), ('"', '"'),
    ('\\', '\\'), ('/', '/'), ('N', '\u0085'), ('_', '\u00a0'), ('L', '\u2028'), ('P', '\u2029')]

/-- How many hexadecimal digits follow a backslash and the character. -/
def codeLengths : List (Char × Nat) :=
  [('x', 2), ('u', 4), ('U', 8)]

/-- Where the reader of a scalar between double quotes stands: at a character, after a backslash, or
in an escape that still needs `owed + 1` hexadecimal digits. -/
inductive Within where
  | characters
  | escape
  | code (owed value : Nat)

/-- Reads on in a scalar between double quotes. -/
def doubleFrom (met : List Char) (gap : Gap) (count : Nat) :
    Within → List Char → Option (List Char × Nat)
  | _, [] => none
  | .characters, c :: rest =>
    if c = ' ' || c = '\t' then doubleFrom met (gap.blank c) (count + 1) .characters rest
    else if isBreak c then
      if isSeparator rest then none
      else doubleFrom met (gap.lineBreak c) (count + 1) .characters rest
    else
      let met := gap.folded ++ met
      if c = '"' then some (met.reverse, count + 1)
      else if c = '\\' then doubleFrom met (.blanks []) (count + 1) .escape rest
      else doubleFrom (c :: met) (.blanks []) (count + 1) .characters rest
  | .escape, c :: rest =>
    if isBreak c then
      if isSeparator rest then none else doubleFrom met (.escaped []) (count + 1) .characters rest
    else match shortEscapes.lookup c, codeLengths.lookup c with
      | some d, _ => doubleFrom (d :: met) gap (count + 1) .characters rest
      | none, some n => doubleFrom met gap (count + 1) (.code (n - 1) 0) rest
      | none, none => none
  | .code owed value, c :: rest =>
    match Text.hexValue? c, owed with
    | none, _ => none
    | some d, owed + 1 => doubleFrom met gap (count + 1) (.code owed (value * 16 + d)) rest
    | some d, 0 =>
      let n := value * 16 + d
      if n < 0x110000 then
        doubleFrom (Json.charOfCode n :: met) gap (count + 1) .characters rest
      else none

/-- The scalar after an opening single quote. -/
def single? (cs : List Char) : Option (List Char × Nat) :=
  singleFrom [] (.blanks []) 0 cs

/-- The scalar after an opening double quote. -/
def double? (cs : List Char) : Option (List Char × Nat) :=
  doubleFrom [] (.blanks []) 0 .characters cs

end Spreadsheet.Yaml
