import Spreadsheet.Proofs.Text.Utf8
import Spreadsheet.Text.Lines

/-! # Octets and lines

Octets that break off no character at their end are read by themselves, whatever comes after them
(`decodeLossy_append`); a text is read back from its octets (`decodeLossy_encode`). A text without
line breaks is one line (`lines_cons`). -/

namespace Spreadsheet

namespace Utf8

/-! ### Octets read in parts -/

/-- **Octets that break off no character** are read by themselves. -/
theorem decodeLossy_append {a : List UInt8} (h : Whole a) (b : List UInt8) :
    decodeLossy (a ++ b) = decodeLossy a ++ decodeLossy b := by
  rw [decodeLossy, parts_append h, List.map_append]
  rfl

/-- **A text is read back** from its octets. -/
theorem decodeLossy_encode (cs : List Char) (rest : List UInt8) :
    decodeLossy (encode cs ++ rest) = cs ++ decodeLossy rest := by
  rw [decodeLossy_append (whole_encode cs), decodeLossy, parts_encode, List.map_map]
  simp [Function.comp_def]

/-! ### Line breaks -/

/-- Octets go on with a character only where they are no ASCII and start none. -/
def Position.Sound : Position → Prop
  | between => True
  | inside low high _ _ => 0x80 ≤ low ∧ high ≤ 0xbf

theorem sound_leading {b : UInt8} {p : Position} (h : leading b = some (.inr p)) : p.Sound := by
  unfold leading at h
  split_ifs at h <;> cases h <;> exact ⟨by decide, by decide⟩

theorem sound_stepBetween (met : List (Option Char)) (b : UInt8) : (stepBetween met b).1.Sound := by
  unfold stepBetween
  split
  · trivial
  · exact sound_leading ‹_›
  · trivial

theorem Position.Sound.step {p : Position} (h : p.Sound) (met : List (Option Char)) (b : UInt8) :
    (step (p, met) b).1.Sound := by
  cases p with
  | between => exact sound_stepBetween met b
  | inside low high owed code =>
    simp only [Utf8.step]
    split
    · split
      · trivial
      · exact ⟨by decide, by decide⟩
    · exact sound_stepBetween _ b

theorem Position.Sound.foldl {p : Position} (h : p.Sound) (met : List (Option Char))
    (octets : List UInt8) : (octets.foldl Utf8.step (p, met)).1.Sound := by
  induction octets generalizing p met with
  | nil => exact h
  | cons b octets ih => exact ih (h.step met b) _

/-- What starts a character ends what has been begun. -/
theorem step_of_starts {p : Position} (hp : p.Sound) {b : UInt8} (hb : b < 0x80 ∨ 0xbf < b)
    (met : List (Option Char)) : ∃ met', step (p, met) b = stepBetween met' b := by
  cases p with
  | between => exact ⟨met, rfl⟩
  | inside low high owed code =>
    refine ⟨none :: met, ?_⟩
    have hout : ¬ (low ≤ b ∧ b ≤ high) := by
      rintro ⟨hlow, hhigh⟩
      rcases hb with hb | hb
      · exact absurd (UInt8.lt_of_lt_of_le hb (UInt8.le_trans hp.1 hlow)) (UInt8.lt_irrefl _)
      · exact absurd (UInt8.lt_of_lt_of_le hb (UInt8.le_trans hhigh hp.2)) (UInt8.lt_irrefl _)
    simp only [step, if_neg hout]

/-- The first octet of a character starts it. -/
theorem exists_start (c : Char) : ∃ b tail, encode [c] = b :: tail ∧ (b < 0x80 ∨ 0xbf < b) := by
  rcases Nat.lt_or_ge 0x7f c.toNat with h | h
  · obtain ⟨b, p, tail, hb, hp⟩ := exists_leading h
    have hoctets := encode_of_leading hb hp
    rw [Char.ofNat_toNat] at hoctets
    exact ⟨b, tail, hoctets, .inr (lt_of_leading_inr hb)⟩
  · have hascii : c.toNat < 0x80 := Nat.lt_succ_of_le h
    exact ⟨_, [], encode_ascii hascii, .inl (ofNat_ascii_lt hascii)⟩

/-- **A character is read** whatever has been begun before it. -/
theorem foldl_encode_of_sound {p : Position} (hp : p.Sound) (c : Char) (met : List (Option Char)) :
    ∃ met', (encode [c]).foldl step (p, met) = (.between, some c :: met') := by
  obtain ⟨b, tail, hoctets, hb⟩ := exists_start c
  obtain ⟨met', hstep⟩ := step_of_starts hp hb met
  refine ⟨met', ?_⟩
  rw [← foldl_encode c met', hoctets, List.foldl_cons, List.foldl_cons, hstep, step]

/-- **Octets that end with a line break**, whatever stands before it. -/
def EndsLine (octets : List UInt8) : Prop :=
  ∃ front c, octets = front ++ encode [c] ∧ Text.isLineBreak c = true

theorem EndsLine.decode {octets : List UInt8} (h : EndsLine octets) : Whole octets ∧
    ∃ cs c, decodeLossy octets = cs ++ [c] ∧ Text.isLineBreak c = true := by
  obtain ⟨front, c, rfl, hc⟩ := h
  have hsound := Position.Sound.foldl (p := .between) trivial [] front
  obtain ⟨met, hfold⟩ :=
    foldl_encode_of_sound hsound c (front.foldl step (.between, [])).2
  have hall : (front ++ encode [c]).foldl step (.between, []) = (.between, some c :: met) := by
    rw [List.foldl_append]
    exact hfold
  refine ⟨by rw [Whole, hall], met.reverse.map (·.getD '\uFFFD'), c, ?_, hc⟩
  rw [decodeLossy, parts, hall]
  simp

end Utf8

namespace Text

/-! ### Lines -/

theorem linesFrom_cons {c : Char} {rest : List Char}
    (h : ∀ more, c = '\r' → rest = '\n' :: more → False) (met : List (List Char)) (line : List Char) :
    linesFrom met line (c :: rest) = if isLineBreak c then linesFrom (line.reverse :: met) [] rest
      else linesFrom met (c :: line) rest := by
  rw [linesFrom]
  exact h

/-- The lines already met are carried along. -/
theorem linesFrom_met (met old : List (List Char)) (line cs : List Char) :
    linesFrom (met ++ old) line cs = old.reverse ++ linesFrom met line cs := by
  induction met, line, cs using linesFrom.induct with
  | case1 met line =>
    simp only [linesFrom]
    split <;> simp
  | case2 met line rest ih => exact ih
  | case3 met line c rest hcr h ih =>
    rw [linesFrom_cons hcr, linesFrom_cons hcr, if_pos h, if_pos h]
    exact ih
  | case4 met line c rest hcr h ih =>
    rw [linesFrom_cons hcr, linesFrom_cons hcr, if_neg h, if_neg h]
    exact ih

/-- What breaks no line is taken into the present one. -/
theorem linesFrom_append {cs : List Char} (h : ∀ c ∈ cs, isLineBreak c = false)
    (met : List (List Char)) (line rest : List Char) :
    linesFrom met line (cs ++ rest) = linesFrom met (cs.reverse ++ line) rest := by
  induction cs generalizing line with
  | nil => rfl
  | cons c cs ih =>
    obtain ⟨hc, hcs⟩ := List.forall_mem_cons.mp h
    have hne : ∀ more, c = '\r' → cs ++ rest = '\n' :: more → False := fun _ heq _ => by
      rw [heq] at hc
      revert hc
      decide
    rw [List.cons_append, linesFrom_cons hne, if_neg (by simp [hc]), ih hcs,
      List.reverse_cons, List.append_assoc, List.singleton_append]

/-- **A text without line breaks** before a line feed is the first line. -/
theorem lines_cons {cs : List Char} (h : ∀ c ∈ cs, isLineBreak c = false) (rest : List Char) :
    lines (cs ++ '\n' :: rest) = cs :: lines rest := by
  have hfeed : linesFrom [] cs.reverse ('\n' :: rest) = linesFrom [cs.reverse.reverse] [] rest := rfl
  have hmet := linesFrom_met [] [cs] [] rest
  rw [lines, linesFrom_append h, List.append_nil, hfeed, List.reverse_reverse]
  exact hmet

theorem lines_of_break {c : Char} {rest : List Char} (hc : isLineBreak c = true)
    (h : ∀ more, c = '\r' → rest = '\n' :: more → False) (line : List Char) :
    linesFrom [] line (c :: rest) = line.reverse :: lines rest := by
  have hmet := linesFrom_met [] [line.reverse] [] rest
  rw [linesFrom_cons h, if_pos hc]
  exact hmet

/-- A carriage return with a line feed after it is one line break. -/
theorem lines_of_pair (line rest : List Char) :
    linesFrom [] line ('\r' :: '\n' :: rest) = line.reverse :: lines rest :=
  linesFrom_met [] [line.reverse] [] rest

/-- **What stands before a line break** and what stands after it have lines of their own. A carriage
return and a line feed that are torn apart leave an empty line. -/
theorem filter_linesFrom_append {filled : List Char → Bool} (hfilled : filled [] = false) {c : Char}
    (hc : isLineBreak c = true) (rest : List Char) (cs line : List Char) :
    (linesFrom [] line (cs ++ c :: rest)).filter filled
      = (linesFrom [] line (cs ++ [c])).filter filled ++ (lines rest).filter filled := by
  induction hn : cs.length using Nat.strongRecOn generalizing cs line with
  | ind n ih =>
    -- The same first line on both sides makes no difference.
    have hfirst : ∀ {a b k : List (List Char)}, a.filter filled = b.filter filled ++ k →
        (line.reverse :: a).filter filled = (line.reverse :: b).filter filled ++ k := fun h => by
      rw [List.filter_cons, List.filter_cons, h]
      split <;> rfl
    have hlast : ∀ d more, d = '\r' → [] = '\n' :: more → False := fun _ _ _ h => by cases h
    match cs with
    | [] =>
      rw [List.nil_append, List.nil_append, lines_of_break hc (hlast c)]
      by_cases hpair : ∃ more, c = '\r' ∧ rest = '\n' :: more
      · obtain ⟨more, rfl, rfl⟩ := hpair
        have hfeed : lines ('\n' :: more) = [] :: lines more :=
          lines_of_break (by decide) (fun _ h => absurd h (by decide)) []
        rw [lines_of_pair, hfeed]
        exact hfirst (List.filter_cons_of_neg (by simp [hfilled])).symm
      · have hno : ∀ more, c = '\r' → rest = '\n' :: more → False := fun more h h' =>
          hpair ⟨more, h, h'⟩
        rw [lines_of_break hc hno]
        exact hfirst rfl
    | d :: ds =>
      have hlt : ds.length < n := by simp at hn; omega
      rw [List.cons_append, List.cons_append]
      by_cases hpair : ∃ more, d = '\r' ∧ ds = '\n' :: more
      · obtain ⟨more, rfl, rfl⟩ := hpair
        rw [List.cons_append, List.cons_append, lines_of_pair, lines_of_pair]
        exact hfirst (ih more.length (by simp at hlt; omega) more [] rfl)
      by_cases hsplit : d = '\r' ∧ ds = [] ∧ c = '\n'
      · obtain ⟨rfl, rfl, rfl⟩ := hsplit
        rw [List.nil_append, List.nil_append, lines_of_pair, lines_of_pair]
        exact hfirst rfl
      have hno : ∀ tail more, d = '\r' → ds ++ c :: tail = '\n' :: more → False := by
        intro tail more hd hds
        cases ds with
        | nil => exact hsplit ⟨hd, rfl, (List.cons.inj hds).1⟩
        | cons x xs => exact hpair ⟨xs, hd, by rw [(List.cons.inj hds).1]⟩
      by_cases hbreak : isLineBreak d = true
      · rw [lines_of_break hbreak (hno rest), lines_of_break hbreak (hno [])]
        exact hfirst (ih ds.length hlt ds [] rfl)
      · rw [linesFrom_cons (hno rest), linesFrom_cons (hno []), if_neg hbreak, if_neg hbreak]
        exact ih ds.length hlt ds (d :: line) rfl

end Text

end Spreadsheet
