import Spreadsheet.Yaml.Scalar

/-!
# Tokens of YAML

A text is split into tokens. The structure that indentation gives becomes tokens of its own: a list
or a map in block form is opened by a token and closed by `blockEnd`, and each key has the token
`key` before it.

That a scalar or a list or map in line is a key shows only at the colon after it, which has to be on
the same line. So each of them is kept as a `Candidate` until the colon comes or it is too late;
then the tokens that make it a key are put in its place.

Anchors, aliases, tags, directives and block scalars are refused.
-/

namespace Spreadsheet.Yaml

/-- A token of YAML. -/
inductive Token where
  | scalar (isPlain : Bool) (cs : List Char)
  | openList
  | closeList
  | openMap
  | closeMap
  | comma
  | dash
  | key
  | colon
  | blockList
  | blockMap
  | blockEnd
  | documentStart
  | documentEnd
  deriving DecidableEq, Repr

/-- What may still turn out to be a key: how many tokens there were before it, where it starts, and
whether it can be nothing else. -/
structure Candidate where
  place : Nat
  line : Nat
  column : Nat
  position : Nat
  required : Bool

/-- How far a text has been read. -/
structure Scan where
  line : Nat := 0
  column : Nat := 0
  position : Nat := 0
  /-- The columns of the open lists and maps in block form, the innermost first. -/
  indents : List Nat := []
  /-- May a key start here? -/
  keyAllowed : Bool := true
  /-- What may turn out to be a key in the innermost list or map in line. -/
  candidate : Option Candidate := none
  /-- The same for what surrounds it; nothing does if no list or map in line is open. -/
  outer : List (Option Candidate) := []
  /-- The tokens read, last first. -/
  tokens : List Token := []

namespace Scan

/-- Is a list or a map in line open? -/
def inLine (s : Scan) : Bool :=
  !s.outer.isEmpty

/-- After one more character. -/
def advance (c : Char) (s : Scan) : Scan :=
  if isBreak c then { s with line := s.line + 1, column := 0, position := s.position + 1 }
  else { s with column := s.column + 1, position := s.position + 1 }

/-- After one more token. -/
def push (t : Token) (s : Scan) : Scan :=
  { s with tokens := t :: s.tokens }

/-! ### Candidates -/

/-- Is it too late for a colon after a candidate? -/
def isLate (s : Scan) (k : Candidate) : Bool :=
  k.line != s.line || 1024 < s.position - k.position

/-- Gives up the candidates for which it is too late; fails if one can be nothing but a key. -/
def dropLate (s : Scan) : Option Scan :=
  let late (k : Option Candidate) : Bool := k.any s.isLate
  if (s.candidate :: s.outer).any fun k => late k && k.any (·.required) then none
  else some { s with
    candidate := s.candidate.filter fun k => !s.isLate k
    outer := s.outer.map fun k => k.filter fun k => !s.isLate k }

/-- Gives up the present candidate; fails if it can be nothing but a key. -/
def dropCandidate (s : Scan) : Option Scan :=
  if s.candidate.any (·.required) then none else some { s with candidate := none }

/-- Keeps what starts here as a candidate, if a key may start here. -/
def keepCandidate (s : Scan) : Option Scan :=
  if s.keyAllowed then do
    let s ← s.dropCandidate
    return { s with candidate := some {
      place := s.tokens.length
      line := s.line
      column := s.column
      position := s.position
      required := !s.inLine && s.indents.head? = some s.column } }
  else some s

/-- Puts tokens (last first) where a candidate starts. -/
def putBefore (k : Candidate) (ts : List Token) (s : Scan) : Scan :=
  let after := s.tokens.length - k.place
  { s with tokens := s.tokens.take after ++ ts ++ s.tokens.drop after }

/-! ### Indentation -/

/-- Closes the lists and maps in block form that are indented more than the column. -/
def unwind (column : Option Nat) (s : Scan) : Scan :=
  if s.inLine then s
  else
    let isDeeper (i : Nat) : Bool := column.all (· < i)
    { s with
      indents := s.indents.dropWhile isDeeper
      tokens := (s.indents.takeWhile isDeeper).map (fun _ => Token.blockEnd) ++ s.tokens }

/-- Is the column deeper than the innermost list or map in block form? -/
def isDeeper (s : Scan) (column : Nat) : Bool :=
  s.indents.head?.all (· < column)

/-- Opens a list or a map in block form at the present column, if none is open there. -/
def openBlock (t : Token) (s : Scan) : Scan :=
  if s.isDeeper s.column then { s with indents := s.column :: s.indents, tokens := t :: s.tokens }
  else s

/-! ### One token -/

/-- The opening bracket of a list or a map in line. -/
def openInLine (t : Token) (s : Scan) : Option Scan := do
  let s ← s.keepCandidate
  return { s with outer := s.candidate :: s.outer, candidate := none, keyAllowed := true }.push t

/-- The closing bracket of a list or a map in line. -/
def closeInLine (t : Token) (s : Scan) : Option Scan := do
  let s ← s.dropCandidate
  match s.outer with
  | [] => none
  | k :: outer => return { s with candidate := k, outer, keyAllowed := false }.push t

/-- The comma between items in line. -/
def comma (s : Scan) : Option Scan := do
  return { ← s.dropCandidate with keyAllowed := true }.push .comma

/-- The dash before an item in block form. -/
def dash (s : Scan) : Option Scan := do
  guard (s.inLine || s.keyAllowed)
  let s := if s.inLine then s else s.openBlock .blockList
  return { ← s.dropCandidate with keyAllowed := true }.push .dash

/-- The question mark before a key. -/
def explicitKey (s : Scan) : Option Scan := do
  guard (s.inLine || s.keyAllowed)
  let s := if s.inLine then s else s.openBlock .blockMap
  return { ← s.dropCandidate with keyAllowed := !s.inLine }.push .key

/-- The colon after a candidate, which thereby is a key. -/
def colonAfter (k : Candidate) (s : Scan) : Scan :=
  let s := { s with candidate := none, keyAllowed := false }
  let s := if s.inLine || !s.isDeeper k.column then s.putBefore k [.key]
    else { s with indents := k.column :: s.indents }.putBefore k [.key, .blockMap]
  s.push .colon

/-- The colon before a value. -/
def colon (s : Scan) : Option Scan :=
  match s.candidate with
  | some k => some (s.colonAfter k)
  | none => do
    guard (s.inLine || s.keyAllowed)
    let s := if s.inLine then s else s.openBlock .blockMap
    return { s with keyAllowed := !s.inLine }.push .colon

/-- A scalar. -/
def scalar (isPlain : Bool) (cs : List Char) (s : Scan) : Option Scan := do
  return { ← s.keepCandidate with keyAllowed := false }.push (.scalar isPlain cs)

/-- A separator of documents. -/
def separator (t : Token) (s : Scan) : Option Scan := do
  return { ← (s.unwind none).dropCandidate with keyAllowed := false }.push t

/-- Reads the token that a text starts with; gives how many characters it has after its first
one. -/
def fetch (s : Scan) (cs : List Char) : Option (Scan × Nat) :=
  let one (s : Option Scan) : Option (Scan × Nat) := s.map (·, 0)
  if s.column = 0 && isSeparator cs then
    (s.separator (if cs.head? = some '-' then .documentStart else .documentEnd)).map (·, 2)
  else if startsPlain s.inLine cs then
    let (text, count) := plain s.inLine (s.indents.head?.elim 0 (· + 1)) cs
    (s.scalar true text).map (·, count - 1)
  else match cs with
    | '[' :: _ => one (s.openInLine .openList)
    | '\x7b' :: _ => one (s.openInLine .openMap)
    | ']' :: _ => one (s.closeInLine .closeList)
    | '\x7d' :: _ => one (s.closeInLine .closeMap)
    | ',' :: _ => one s.comma
    | '-' :: _ => one s.dash
    | '?' :: _ => one s.explicitKey
    | ':' :: _ => one s.colon
    | '\'' :: rest => do
      let (text, count) ← single? rest
      return (← s.scalar false text, count)
    | '"' :: rest => do
      let (text, count) ← double? rest
      return (← s.scalar false text, count)
    | _ => none

/-! ### All tokens -/

/-- The tokens in order, after the end of the text. -/
def finish (s : Scan) : Option (List Token) := do
  guard (!s.inLine)
  let s ← ((← s.dropLate).unwind none).dropCandidate
  return s.tokens.reverse

/-- Reads on; the first `skip` characters belong to a token already read or to a comment. -/
def readFrom (skip : Nat) (s : Scan) : List Char → Option (List Token)
  | [] => s.finish
  | c :: rest =>
    match skip with
    | skip + 1 => readFrom skip (s.advance c) rest
    | 0 =>
      if c = ' ' then readFrom 0 (s.advance c) rest
      else if isBreak c then
        readFrom 0 { s.advance c with keyAllowed := s.keyAllowed || !s.inLine } rest
      else if c = '#' then
        readFrom (rest.takeWhile fun d => !isBreak d).length (s.advance c) rest
      else do
        let (t, more) ← ((← s.dropLate).unwind (some s.column)).fetch (c :: rest)
        readFrom more (t.advance c) rest

end Scan

/-- May the character stand in a text? -/
def isAllowed (c : Char) : Bool :=
  let n := c.toNat
  n = 9 || n = 10 || n = 13 || (0x20 ≤ n && n < 0x7f) || n = 0x85 ||
    (0xa0 ≤ n && n != 0xfffe && n != 0xffff)

/-- The tokens of a text; a byte order mark before it is left out. -/
def tokens? (cs : List Char) : Option (List Token) :=
  if cs.all isAllowed then
    Scan.readFrom 0 {} (if cs.head? = some '\uFEFF' then cs.drop 1 else cs)
  else none

end Spreadsheet.Yaml
