import Spreadsheet.Log.Journal
import Spreadsheet.Proofs.Json.Tokens
import Spreadsheet.Proofs.Text.Octets

/-! # The end of a journal

A journal is read from the start of a line on, and as far back as its last octets reach: what is read
of lines one after the other is the longest end of them that fits (`tail_flatten`). A line of
printable ASCII that holds JSON is read as what it holds (`valuesOfLines_line`). -/

namespace Spreadsheet

namespace Log

namespace Journal

/-! ### The longest end that fits -/

section LongestEnd

variable {α β : Type} {count : α → Nat} {size : Int}

/-- **The longest end of a list** whose items count at most `size` together. -/
def longestEnd (count : α → Nat) (size : Int) : List α → List α
  | [] => []
  | x :: rest =>
    if ((x :: rest).map count).sum ≤ size then x :: rest else longestEnd count size rest

theorem longestEnd_suffix (l : List α) : longestEnd count size l <:+ l := by
  induction l with
  | nil => exact List.suffix_refl _
  | cons x l ih =>
    unfold longestEnd
    split
    · exact List.suffix_refl _
    · exact ih.trans (List.suffix_cons x l)

/-- It fits. -/
theorem sum_longestEnd_le (hsize : 0 ≤ size) (l : List α) :
    ((longestEnd count size l).map count).sum ≤ size := by
  induction l with
  | nil => exact hsize
  | cons x l ih =>
    unfold longestEnd
    split
    · assumption
    · exact ih

/-- No longer end fits. -/
theorem suffix_longestEnd {k l : List α} (h : k <:+ l) (hk : (k.map count).sum ≤ size) :
    k <:+ longestEnd count size l := by
  induction l with
  | nil => exact h
  | cons x l ih =>
    unfold longestEnd
    split
    · exact h
    · rcases List.suffix_cons_iff.mp h with rfl | h
      · contradiction
      · exact ih h

theorem longestEnd_eq_self {l : List α} (h : (l.map count).sum ≤ size) :
    longestEnd count size l = l :=
  ((longestEnd_suffix l).eq_of_length_le (suffix_longestEnd (List.suffix_refl l) h).length_le)

theorem longestEnd_map (f : β → α) (l : List β) :
    longestEnd count size (l.map f) = (longestEnd (count ∘ f) size l).map f := by
  induction l with
  | nil => rfl
  | cons x l ih =>
    rw [List.map_cons, longestEnd, longestEnd, ← List.map_cons, List.map_map, ih]
    split <;> rfl

end LongestEnd

/-! ### Lines of octets -/

/-- Octets that end with the first end of a line among them. -/
def IsLine (octets : List UInt8) : Prop :=
  ∃ body, octets = body ++ [lineEnd] ∧ lineEnd ∉ body

/-- What follows a line, from any of its octets on. -/
theorem afterLineEnd_append {l : List UInt8} (h : IsLine l) {k : Nat} (hk : k < l.length)
    (rest : List UInt8) : afterLineEnd ((l ++ rest).drop k) = rest := by
  obtain ⟨body, rfl, hbody⟩ := h
  rw [List.length_append, List.length_singleton] at hk
  have hdrop : ∀ b ∈ body.drop k, (b != lineEnd) = true := fun b hb => by
    have hne : b ≠ lineEnd := fun heq => hbody (heq ▸ List.mem_of_mem_drop hb)
    simpa using hne
  rw [List.append_assoc, List.drop_append_of_le_length (by omega), afterLineEnd,
    List.dropWhile_append_of_pos hdrop]
  rfl

/-- **The end of lines one after the other** is the longest end of them that fits. -/
theorem tail_flatten {lines : List (List UInt8)} (h : ∀ l ∈ lines, IsLine l) {size : Int}
    (hsize : 0 ≤ size) :
    tail size lines.flatten = (longestEnd List.length size lines).flatten := by
  induction lines with
  | nil => exact tail_eq_self hsize
  | cons l rest ih =>
    obtain ⟨hl, hrest⟩ := List.forall_mem_cons.mp h
    rw [longestEnd]
    split
    · next hfits =>
      rw [← List.length_flatten] at hfits
      exact tail_eq_self hfits
    · next hlong =>
      rw [← List.length_flatten] at hlong
      rw [List.flatten_cons, List.length_append] at hlong
      rw [← ih hrest, List.flatten_cons, tail, List.length_append, if_neg hlong]
      by_cases hfits : (rest.flatten.length : Int) ≤ size
      · -- The last octets, and the one before them, start within the first line.
        rw [tail_eq_self hfits]
        exact afterLineEnd_append hl (by omega) _
      · have hskip : ((l.length + rest.flatten.length : Nat) - size - 1).toNat
            = l.length + (rest.flatten.length - size - 1).toNat := by omega
        rw [hskip, ← List.drop_drop, List.drop_left, tail, if_neg hfits]

/-! ### Lines that hold JSON -/

theorem isPrintable_lt {c : Char} (h : Json.IsPrintable c) : c.toNat < 0x80 :=
  Nat.lt_trans h.2 (by decide)

theorem isLineBreak_of_printable {c : Char} (h : Json.IsPrintable c) :
    Text.isLineBreak c = false := by
  obtain ⟨hlow, hhigh⟩ := h
  simp only [Text.isLineBreak, Bool.or_eq_false_iff, Bool.and_eq_false_iff, decide_eq_false_iff_not,
    beq_eq_false_iff_ne]
  omega

/-- The only blank in printable ASCII is the space. -/
theorem eq_space {c : Char} (h : Json.IsPrintable c) (hblank : Text.isBlank c = true) : c = ' ' := by
  obtain ⟨hlow, hhigh⟩ := h
  have hcode : c.toNat = ' '.toNat := by
    simp only [Text.isBlank, Bool.or_eq_true, Bool.and_eq_true, decide_eq_true_eq,
      beq_iff_eq] at hblank
    show c.toNat = 32
    omega
  exact Char.toNat_inj.mp hcode

theorem read_blank {cs : List Char} (h : ∀ c ∈ cs, Json.IsPrintable c)
    (hblank : cs.all Text.isBlank = true) : Json.read cs = .error .malformed := by
  induction cs with
  | nil => rfl
  | cons c cs ih =>
    obtain ⟨hc, hcs⟩ := List.forall_mem_cons.mp h
    rw [List.all_cons, Bool.and_eq_true] at hblank
    rw [eq_space hc hblank.1]
    exact ih hcs hblank.2

/-- The octets of a line of printable ASCII. -/
theorem isLine_encode {t : List Char} (h : ∀ c ∈ t, Json.IsPrintable c) :
    IsLine (Utf8.encode (t ++ ['\n'])) := by
  refine ⟨Utf8.encode t, Utf8.encode_append t ['\n'], fun hmem => ?_⟩
  obtain ⟨c, hc, hb⟩ := List.mem_flatMap.mp hmem
  have hc := h c hc
  have hsingle := Utf8.encode_ascii (isPrintable_lt hc)
  rw [Utf8.encode, List.flatMap_cons, List.flatMap_nil, List.append_nil] at hsingle
  rw [hsingle, List.mem_singleton] at hb
  have hcode := Utf8.toNat_ofNat_ascii (isPrintable_lt hc)
  rw [← hb] at hcode
  have hlow := hc.1
  rw [← hcode] at hlow
  exact absurd hlow (by decide)

/-- **A line of printable ASCII** that holds JSON comes first in what is read. -/
theorem valuesOfLines_line {t : List Char} {v : Value} (h : ∀ c ∈ t, Json.IsPrintable c)
    (hread : Json.read t = .ok v) {rest : List UInt8} {values : List Value}
    (hrest : valuesOfLines (Text.lines (Utf8.decodeLossy rest)) = .ok values) :
    valuesOfLines (Text.lines (Utf8.decodeLossy (Utf8.encode (t ++ ['\n']) ++ rest)))
      = .ok (v :: values) := by
  have hfilled : ¬ t.all Text.isBlank = true := fun hblank => by
    rw [read_blank h hblank] at hread
    cases hread
  rw [Utf8.decodeLossy_encode, List.append_assoc, List.singleton_append,
    Text.lines_cons fun c hc => isLineBreak_of_printable (h c hc), valuesOfLines, if_neg hfilled,
    hread, hrest]
  rfl

end Journal

end Log

end Spreadsheet
