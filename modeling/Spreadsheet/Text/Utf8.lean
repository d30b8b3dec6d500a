import Spreadsheet.Text.Hex

/-!
# UTF-8

Octets are read as UTF-8. The octets that start a character and break off before it is complete
form one invalid part, and so does every octet that starts no character. `decode` fails on an
invalid part; `decodeLossy` puts U+FFFD in its place.
-/

namespace Spreadsheet.Utf8

/-- Where the reader stands between two octets: between characters, or inside one that still needs
`owed + 1` octets, the next of them from `low` to `high`; `code` holds the bits read so far. -/
inductive Position where
  | between
  | inside (low high : UInt8) (owed code : Nat)

/-- What an octet between characters starts; `none` if no character starts with it. -/
def leading (b : UInt8) : Option (Char ⊕ Position) :=
  if b < 0x80 then some (.inl (Char.ofNat b.toNat))
  else if 0xc2 ≤ b ∧ b ≤ 0xdf then some (.inr (.inside 0x80 0xbf 0 (b.toNat - 0xc0)))
  else if b = 0xe0 then some (.inr (.inside 0xa0 0xbf 1 0))
  else if b = 0xed then some (.inr (.inside 0x80 0x9f 1 13))
  else if 0xe1 ≤ b ∧ b ≤ 0xef then some (.inr (.inside 0x80 0xbf 1 (b.toNat - 0xe0)))
  else if b = 0xf0 then some (.inr (.inside 0x90 0xbf 2 0))
  else if 0xf1 ≤ b ∧ b ≤ 0xf3 then some (.inr (.inside 0x80 0xbf 2 (b.toNat - 0xf0)))
  else if b = 0xf4 then some (.inr (.inside 0x80 0x8f 2 4))
  else none

/-- One octet read between characters, after the parts met so far (last first). -/
def stepBetween (met : List (Option Char)) (b : UInt8) : Position × List (Option Char) :=
  match leading b with
  | some (.inl c) => (.between, some c :: met)
  | some (.inr p) => (p, met)
  | none => (.between, none :: met)

/-- One octet read. An octet that cannot continue a character ends an invalid part and is read
again between characters. -/
def step : Position × List (Option Char) → UInt8 → Position × List (Option Char)
  | (.between, met), b => stepBetween met b
  | (.inside low high owed code, met), b =>
    if low ≤ b ∧ b ≤ high then
      let code := code * 64 + (b.toNat - 0x80)
      match owed with
      | 0 => (.between, some (Char.ofNat code) :: met)
      | owed + 1 => (.inside 0x80 0xbf owed code, met)
    else stepBetween (none :: met) b

/-- Characters, and `none` for each invalid part, in order. -/
def parts (octets : List UInt8) : List (Option Char) :=
  match octets.foldl step (.between, []) with
  | (.between, met) => met.reverse
  | (.inside .., met) => (none :: met).reverse

/-- The characters, with U+FFFD for each invalid part. -/
def decodeLossy (octets : List UInt8) : List Char :=
  (parts octets).map (·.getD '\uFFFD')

/-- The characters, if no part is invalid. -/
def decode (octets : List UInt8) : Option (List Char) :=
  (parts octets).mapM id

/-- Why octets are no characters. -/
inductive Cause where
  /-- No character starts with the octet. -/
  | start
  /-- The next octet does not continue the character. -/
  | continuation
  | unexpectedEnd
  deriving DecidableEq, Repr

/-- The first octets that are no characters: the position of the first of them, the octets, and
why. -/
structure Invalid where
  position : Nat
  octets : List UInt8
  cause : Cause
  deriving DecidableEq, Repr

/-- The first invalid part of octets from a position on, after the octets of a character that has
been begun (last first). -/
def invalidFrom (position : Nat) (begun : List UInt8) : Position → List UInt8 → Option Invalid
  | .between, [] => none
  | .inside .., [] => some ⟨position, begun.reverse, .unexpectedEnd⟩
  | .between, b :: rest =>
    match leading b with
    | none => some ⟨position, [b], .start⟩
    | some (.inl _) => invalidFrom (position + 1) [] .between rest
    | some (.inr p) => invalidFrom position [b] p rest
  | .inside low high owed code, b :: rest =>
    if low ≤ b ∧ b ≤ high then
      match owed with
      | 0 => invalidFrom (position + begun.length + 1) [] .between rest
      | owed + 1 => invalidFrom position (b :: begun) (.inside 0x80 0xbf owed code) rest
    else some ⟨position, begun.reverse, .continuation⟩

/-- The first invalid part of octets. -/
def firstInvalid? (octets : List UInt8) : Option Invalid :=
  invalidFrom 0 [] .between octets

/-- What is wrong with the octets. -/
def Cause.message : Cause → String
  | start => "invalid start byte"
  | continuation => "invalid continuation byte"
  | unexpectedEnd => "unexpected end of data"

/-- The text of the failure to read octets. -/
def Invalid.message (i : Invalid) : String :=
  let place := match i.octets with
    | [b] => s!"byte 0x{String.ofList (Text.hex 2 b.toNat)} in position {i.position}"
    | _ => s!"bytes in position {i.position}-{i.position + i.octets.length - 1}"
  s!"'utf-8' codec can't decode {place}: {i.cause.message}"

/-- The octets of a list of characters. -/
def encode (cs : List Char) : List UInt8 :=
  cs.flatMap String.utf8EncodeChar

end Spreadsheet.Utf8
