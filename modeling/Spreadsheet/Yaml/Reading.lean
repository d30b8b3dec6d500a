import Spreadsheet.Yaml.Node
import Spreadsheet.Yaml.Plain

/-!
# Reading YAML

A parser for a part of YAML: lists and maps in line and in block form, and scalars plain and in
quotes. Anchors and aliases, tags, block scalars, directives and the merging of maps are malformed to
it. Keys of maps have to be scalars. Lists and maps are read level by level, so of several scalars
that stand for nothing the first one on the outermost level is the one that shows.
-/

namespace Spreadsheet.Yaml

/-- What is read at once: a scalar that is no key, or a key. -/
inductive Leaf where
  | scalar (isPlain : Bool) (cs : List Char)
  | key (n : Node)

/-- What a scalar stands for; one in quotes stands for its characters. -/
def scalarValue (isPlain : Bool) (cs : List Char) : Except Failure Atom :=
  if isPlain then resolve cs else .ok (.scalar (.text (String.ofList cs)))

/-- What a leaf stands for. A lone equals sign that is a key stands for itself. -/
def Leaf.value : Leaf → Except Failure Atom
  | scalar isPlain cs => scalarValue isPlain cs
  | key (.scalar isPlain cs) =>
    if cs = ['='] then .ok (.scalar (.text "=")) else scalarValue isPlain cs
  | key _ => .error .malformed

/-- Levels beside others, in one row. -/
def beside {α : Type} : List (List α) → List (List α) → List (List α)
  | [], bs => bs
  | as, [] => as
  | a :: as, b :: bs => (a ++ b) :: beside as bs

namespace Node

mutual

/-- The leaves of a node, level by level. -/
def levels : Node → List (List Leaf)
  | .scalar isPlain cs => [[.scalar isPlain cs]]
  | .list items => [] :: itemLevels items
  | .map entries => [] :: entryLevels entries

/-- The leaves of the items of a list. -/
def itemLevels : List Node → List (List Leaf)
  | [] => []
  | n :: rest => beside n.levels (itemLevels rest)

/-- The leaves of the entries of a map. -/
def entryLevels : List (Node × Node) → List (List Leaf)
  | [] => []
  | (k, n) :: rest => beside (beside [[.key k]] n.levels) (entryLevels rest)

end

/-- The leaves of a node in the order in which they are read. -/
def leaves (n : Node) : List Leaf :=
  n.levels.flatten

mutual

/-- The data of a node. -/
def data : Node → Except Failure Data
  | .scalar isPlain cs => do return .atom (← (Leaf.scalar isPlain cs).value)
  | .list items => do return .list (← itemData items)
  | .map entries => do return .map (← entryData entries)

/-- The data of the items of a list. -/
def itemData : List Node → Except Failure (List Data)
  | [] => .ok []
  | n :: rest => do return (← n.data) :: (← itemData rest)

/-- The keys and data of the entries of a map. -/
def entryData : List (Node × Node) → Except Failure (List (Atom × Data))
  | [] => .ok []
  | (k, n) :: rest => do return ((← (Leaf.key k).value), ← n.data) :: (← entryData rest)

end

end Node

/-- The characters with one line feed for a carriage return and a line feed. -/
def joinLineEnds : List Char → List Char
  | '\r' :: '\n' :: rest => '\n' :: joinLineEnds rest
  | c :: rest => c :: joinLineEnds rest
  | [] => []

/-- The node that a text in YAML makes. -/
def node? (cs : List Char) : Option Node :=
  (tokens? (joinLineEnds cs)).bind Node.ofTokens?

/-- The data in a text. -/
def read : Parser := fun cs =>
  match node? cs with
  | some n => do
    let _ ← n.leaves.mapM Leaf.value
    n.data
  | none => .error .malformed

end Spreadsheet.Yaml
