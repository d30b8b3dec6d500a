import Spreadsheet.Yaml.Token

/-!
# Nodes of YAML

The tokens of a text make one node: a scalar, a list or a map, whose items, keys and values are nodes
again. Where a node may be left out, an empty plain scalar stands for it. The functions take the
tokens at hand and give the tokens after what they have read; their first argument bounds how deep
they nest, and there are never more levels than four times the tokens (`ofTokens?`).
-/

namespace Spreadsheet.Yaml

/-- A scalar, a list or a map. -/
inductive Node where
  | scalar (isPlain : Bool) (cs : List Char)
  | list (items : List Node)
  | map (entries : List (Node × Node))
  deriving Inhabited, Repr

namespace Node

/-- What stands for a node that has been left out. -/
def empty : Node := .scalar true []

/-- Has a node been left out before the tokens? A dash opens a list of its own only where a list
needs no indentation. -/
def isLeftOut (bareList : Bool) : List Token → Bool
  | [] => true
  | t :: _ =>
    match t with
    | .key | .colon | .blockEnd | .comma | .closeList | .closeMap | .documentStart
    | .documentEnd => true
    | .dash => !bareList
    | _ => false

mutual

/-- A node that may be left out. -/
def optional (fuel : Nat) (bareList : Bool) (ts : List Token) : Option (Node × List Token) :=
  match fuel with
  | 0 => none
  | fuel + 1 => if isLeftOut bareList ts then some (empty, ts) else node fuel bareList ts

/-- A node; `bareList` tells whether it may be a list without indentation. -/
def node (fuel : Nat) (bareList : Bool) (ts : List Token) : Option (Node × List Token) :=
  match fuel, ts with
  | 0, _ => none
  | _ + 1, .scalar isPlain cs :: rest => some (.scalar isPlain cs, rest)
  | fuel + 1, .openList :: rest => do
    let (items, rest) ← inLineItems fuel true rest
    return (.list items, rest)
  | fuel + 1, .openMap :: rest => do
    let (entries, rest) ← inLineEntries fuel true rest
    return (.map entries, rest)
  | fuel + 1, .blockList :: rest =>
    match blockItems fuel rest with
    | some (items, .blockEnd :: rest) => some (.list items, rest)
    | _ => none
  | fuel + 1, .blockMap :: rest => do
    let (entries, rest) ← blockEntries fuel rest
    return (.map entries, rest)
  | fuel + 1, .dash :: rest =>
    if bareList then do
      let (items, rest) ← blockItems fuel (.dash :: rest)
      return (.list items, rest)
    else none
  | _ + 1, _ => none

/-- A key and its value, after the token before the key. -/
def entry (fuel : Nat) (bareList : Bool) (ts : List Token) :
    Option ((Node × Node) × List Token) :=
  match fuel with
  | 0 => none
  | fuel + 1 => do
    let (k, rest) ← optional fuel bareList ts
    match rest with
    | .colon :: rest =>
      let (v, rest) ← optional fuel bareList rest
      return ((k, v), rest)
    | rest => return ((k, empty), rest)

/-- Items, each after a dash. -/
def blockItems (fuel : Nat) (ts : List Token) : Option (List Node × List Token) :=
  match fuel, ts with
  | 0, _ => none
  | fuel + 1, .dash :: rest => do
    let (item, rest) ← optional fuel false rest
    let (items, rest) ← blockItems fuel rest
    return (item :: items, rest)
  | _ + 1, rest => some ([], rest)

/-- Entries in block form, up to the end of the block. -/
def blockEntries (fuel : Nat) (ts : List Token) : Option (List (Node × Node) × List Token) :=
  match fuel, ts with
  | 0, _ => none
  | fuel + 1, .key :: rest => do
    let (e, rest) ← entry fuel true rest
    let (entries, rest) ← blockEntries fuel rest
    return (e :: entries, rest)
  | _ + 1, .blockEnd :: rest => some ([], rest)
  | _ + 1, _ => none

/-- Items in line, up to the closing bracket. An entry among them is a map of its own. -/
def inLineItems (fuel : Nat) (first : Bool) (ts : List Token) :
    Option (List Node × List Token) :=
  match fuel with
  | 0 => none
  | fuel + 1 =>
    match ts, first with
    | .closeList :: rest, _ => some ([], rest)
    | .comma :: .closeList :: rest, false => some ([], rest)
    | .comma :: rest, false => inLineItem fuel rest
    | ts, true => inLineItem fuel ts
    | _, false => none

/-- One item in line and those after it. -/
def inLineItem (fuel : Nat) (ts : List Token) : Option (List Node × List Token) :=
  match fuel with
  | 0 => none
  | fuel + 1 => do
    let (item, rest) ← match ts with
      | .key :: rest => do
        let (e, rest) ← entry fuel false rest
        pure (Node.map [e], rest)
      | ts => node fuel false ts
    let (items, rest) ← inLineItems fuel false rest
    return (item :: items, rest)

/-- Entries in line, up to the closing brace. -/
def inLineEntries (fuel : Nat) (first : Bool) (ts : List Token) :
    Option (List (Node × Node) × List Token) :=
  match fuel with
  | 0 => none
  | fuel + 1 =>
    match ts, first with
    | .closeMap :: rest, _ => some ([], rest)
    | .comma :: .closeMap :: rest, false => some ([], rest)
    | .comma :: rest, false => inLineEntry fuel rest
    | ts, true => inLineEntry fuel ts
    | _, false => none

/-- One entry in line and those after it. A node alone is a key without a value. -/
def inLineEntry (fuel : Nat) (ts : List Token) : Option (List (Node × Node) × List Token) :=
  match fuel with
  | 0 => none
  | fuel + 1 => do
    let (e, rest) ← match ts with
      | .key :: rest => entry fuel false rest
      | ts => do
        let (k, rest) ← node fuel false ts
        pure ((k, empty), rest)
    let (entries, rest) ← inLineEntries fuel false rest
    return (e :: entries, rest)

end

/-- The node that all the tokens make; one document at most, which may be left out only where
nothing stands or after its start. -/
def ofTokens? (ts : List Token) : Option Node := do
  let fuel := 4 * ts.length + 4
  let (n, rest) ← match ts with
    | [] => some (empty, [])
    | .documentStart :: ts => optional fuel false ts
    | ts => node fuel false ts
  guard (rest.all (· = .documentEnd))
  return n

end Node

end Spreadsheet.Yaml
