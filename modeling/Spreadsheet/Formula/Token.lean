import Spreadsheet.Decimal.Reading
import Spreadsheet.Fault
import Spreadsheet.Formula.Expr
import Spreadsheet.Label

/-!
# Tokens

The text of a formula after its `=` is split into tokens. Letters with digits after them name a
cell, letters alone a function; both are turned to upper case. A digit, or a point before a digit,
starts a number, which goes on over digits and points and must have at most one point. Spaces, tabs,
form feeds, carriage returns and line feeds stand between tokens.

Reading stops at the first fault; the tokens before it are kept (`Scan`), since a fault of the
grammar among them comes first.
-/

namespace Spreadsheet

/-- A token of a formula. -/
inductive Token where
  | number (text : String)
  | cell (label : String)
  | name (letters : String)
  | op (o : Operator)
  | leftParen
  | rightParen
  | comma
  | colon
  deriving DecidableEq, Repr

namespace Token

/-- The name of an operator's kind of token. -/
def operatorKind : Operator → String
  | .add => "PLUS"
  | .sub => "MINUS"
  | .mul => "STAR"
  | .div => "SLASH"
  | .eq => "EQ"
  | .ne => "NE"
  | .gt => "GT"
  | .ge => "GE"
  | .lt => "LT"
  | .le => "LE"

/-- The name of a token's kind. -/
def kind : Token → String
  | number _ => "NUMBER"
  | cell _ => "CELL"
  | name _ => "IDENT"
  | op o => operatorKind o
  | leftParen => "LPAR"
  | rightParen => "RPAR"
  | comma => "COMMA"
  | colon => "COLON"

/-- What a token says; letters are in upper case. -/
def text : Token → String
  | number s | cell s | name s => s
  | op o => o.symbol
  | leftParen => "("
  | rightParen => ")"
  | comma => ","
  | colon => ":"

/-! ### The front of a text -/

/-- What a text starts with: a token with `more` characters after its first one, digits and points
that make no number, or a character that starts no token. -/
inductive Front where
  | token (t : Token) (more : Nat)
  | malformed (text : String)
  | stray
  deriving DecidableEq, Repr

/-- May the character stand between tokens? -/
def isSpace (c : Char) : Bool :=
  c = ' ' || c = '\t' || c = '\x0c' || c = '\r' || c = '\n'

/-- Is the character a digit or a point? -/
def isNumeric (c : Char) : Bool :=
  Decimal.isAsciiDigit c || c = '.'

/-- A text that starts with a letter: a cell or a name. -/
def wordFront (cs : List Char) : Front :=
  let letters := cs.takeWhile Label.isLetter
  let digits := (cs.dropWhile Label.isLetter).takeWhile Decimal.isAsciiDigit
  let text := String.ofList ((letters ++ digits).map Char.toUpper)
  .token (if digits.isEmpty then .name text else .cell text) (letters.length + digits.length - 1)

/-- A text that starts with a digit, or with a point before one: a number. -/
def numberFront (cs : List Char) : Front :=
  let run := cs.takeWhile isNumeric
  let text := String.ofList run
  if run.count '.' ≤ 1 then .token (.number text) (run.length - 1) else .malformed text

/-- A text that starts with another character: an operator or punctuation. -/
def signFront : List Char → Front
  | '>' :: '=' :: _ => .token (.op .ge) 1
  | '<' :: '=' :: _ => .token (.op .le) 1
  | '!' :: '=' :: _ => .token (.op .ne) 1
  | '>' :: _ => .token (.op .gt) 0
  | '<' :: _ => .token (.op .lt) 0
  | '=' :: _ => .token (.op .eq) 0
  | '+' :: _ => .token (.op .add) 0
  | '-' :: _ => .token (.op .sub) 0
  | '*' :: _ => .token (.op .mul) 0
  | '/' :: _ => .token (.op .div) 0
  | '(' :: _ => .token .leftParen 0
  | ')' :: _ => .token .rightParen 0
  | ',' :: _ => .token .comma 0
  | ':' :: _ => .token .colon 0
  | _ => .stray

/-- What a text starts with. -/
def front (cs : List Char) : Front :=
  match cs with
  | [] => .stray
  | c :: rest =>
    if Label.isLetter c then wordFront cs
    else if Decimal.isAsciiDigit c || (c = '.' && rest.head?.any Decimal.isAsciiDigit) then
      numberFront cs
    else signFront cs

end Token

/-! ### The tokens of a text -/

/-- A token and the position at which it starts. -/
structure Placed where
  token : Token
  start : Nat
  deriving DecidableEq, Repr

/-- The tokens read from a text, and the fault that ended the reading, if one did. -/
structure Scan where
  tokens : List Placed
  fault : Option Fault
  deriving DecidableEq, Repr

/-- Reads tokens from a text that starts at position `start` and whose first `skip` characters
belong to a token already read. -/
def Scan.ofListFrom (skip start : Nat) : List Char → Scan
  | [] => ⟨[], none⟩
  | c :: rest =>
    match skip with
    | skip + 1 => ofListFrom skip (start + 1) rest
    | 0 =>
      if Token.isSpace c then ofListFrom 0 (start + 1) rest
      else match Token.front (c :: rest) with
        | .token t more =>
          let scan := ofListFrom more (start + 1) rest
          ⟨⟨t, start⟩ :: scan.tokens, scan.fault⟩
        | .malformed text => ⟨[], some (.badSyntax (.invalidNumber text) start)⟩
        | .stray => ⟨[], some (.badSyntax (.unexpectedCharacter c) start)⟩

/-- Reads the tokens of a formula's text after its `=`. -/
def Scan.ofBody (body : String) : Scan :=
  ofListFrom 0 0 body.toList

/-- The tokens of a formula's text after its `=`. -/
def tokenize (body : String) : Except Fault (List Placed) :=
  let scan := Scan.ofBody body
  match scan.fault with
  | some fault => .error fault
  | none => .ok scan.tokens

theorem tokenize_eq_ok {body : String} {placed : List Placed} : tokenize body = .ok placed ↔
    (Scan.ofBody body).fault = none ∧ (Scan.ofBody body).tokens = placed := by
  unfold tokenize
  dsimp only
  cases (Scan.ofBody body).fault <;> simp

end Spreadsheet
