import Spreadsheet.Value.Basic

/-!
# Redaction

Before an event is kept, long texts in its context are cut. The texts under the keys of maps are cut
at every depth, and so are the texts and maps in a list; a list inside a list is kept as it is.

Main statement: `cut_cut` (cutting a text again changes nothing).
-/

namespace Spreadsheet.Redaction

/-- How many characters of a text are kept. -/
def textLimit : Nat := 256

/-- What follows the characters that are kept of a longer text. -/
def cutMark : String := "...[truncated]"

/-- A text, cut if it is too long. -/
def cut (s : String) : String :=
  if s.length ≤ textLimit then s else String.ofList (s.toList.take textLimit) ++ cutMark

/-- A scalar, cut if it is too long a text. -/
def scalar : Scalar → Scalar
  | .text s => .text (cut s)
  | v => v

mutual

/-- The entries of a map, with the texts in them cut. -/
def entries : List (Scalar × Value) → List (Scalar × Value)
  | [] => []
  | (k, v) :: rest => (k, value v) :: entries rest

/-- The value under a key, with the texts in it cut. -/
def value : Value → Value
  | .scalar v => .scalar (scalar v)
  | .map es => .map (entries es)
  | .list vs => .list (items vs)

/-- The items of a list, with the texts in them cut; lists among them stay. -/
def items : List Value → List Value
  | [] => []
  | .scalar v :: rest => .scalar (scalar v) :: items rest
  | .map es :: rest => .map (entries es) :: items rest
  | .list vs :: rest => .list vs :: items rest

end

theorem cut_cut (s : String) : cut (cut s) = cut s := by
  by_cases h : s.length ≤ textLimit
  · simp [cut, h]
  · have hlen : (s.toList.take textLimit).length = textLimit := by
      have : s.toList.length = s.length := String.length_toList
      simp only [List.length_take]; omega
    have htake : (s.toList.take textLimit ++ cutMark.toList).take textLimit
        = s.toList.take textLimit := List.take_left' hlen
    have hlong : ¬ (String.ofList (s.toList.take textLimit) ++ cutMark).length ≤ textLimit := by
      have : cutMark.length = 14 := by decide
      simp only [String.length_append, String.length_ofList, hlen, this]
      omega
    simp only [cut, h, if_false, hlong, String.toList_append, String.toList_ofList, htake]

end Spreadsheet.Redaction
