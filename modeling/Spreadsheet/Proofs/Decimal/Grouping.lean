import Spreadsheet.Decimal.Layout
import Spreadsheet.Proofs.Decimal.Numerals

/-! # Digits in groups

Putting a row of digits in groups of three puts commas in and changes nothing else: without the
commas the row is left (`filter_grouped`), and it starts with the same digit (`head?_grouped`). A
character of the result is a comma exactly if it is the fourth, the eighth and so on from the end
and something stands before it (`eq_comma_iff_of_grouped`). A number with a fixed count of places is
rounded once and its digits are then cut (`fixedDigits_eq`); an integer is its numeral in groups and,
if there are places, a point and as many zeros (`fixedDigits_integer`). -/

namespace Spreadsheet.Decimal

variable {digits before after : List Char} {c : Char}

/-! ### From the last digit on -/

theorem filter_ne_of_not_mem (h : c ∉ digits) : digits.filter (· ≠ c) = digits :=
  List.filter_eq_self.mpr fun _ hd => decide_eq_true fun heq => h (heq ▸ hd)

theorem filter_groupFromEnd (h : ',' ∉ digits) :
    (groupFromEnd digits).filter (· ≠ ',') = digits := by
  induction digits using groupFromEnd.induct with
  | case1 a b c d rest ih =>
    have hthree : ',' ∉ [a, b, c] := fun hmem => h (List.mem_append_left (d :: rest) hmem)
    have hrest : ',' ∉ d :: rest := fun hmem => h (List.mem_append_right [a, b, c] hmem)
    calc (groupFromEnd (a :: b :: c :: d :: rest)).filter (· ≠ ',')
        = ([a, b, c] ++ [','] ++ groupFromEnd (d :: rest)).filter (· ≠ ',') := rfl
      _ = [a, b, c] ++ [] ++ (d :: rest) := by
          rw [List.filter_append, List.filter_append, filter_ne_of_not_mem hthree, ih hrest]
          rfl
  | case2 digits hfew => rw [groupFromEnd.eq_2 digits hfew, filter_ne_of_not_mem h]

theorem getLast?_groupFromEnd : (groupFromEnd digits).getLast? = digits.getLast? := by
  induction digits using groupFromEnd.induct with
  | case1 a b c d rest ih =>
    calc (groupFromEnd (a :: b :: c :: d :: rest)).getLast?
        = ([a, b, c, ','] ++ groupFromEnd (d :: rest)).getLast? := rfl
      _ = ([a, b, c] ++ (d :: rest)).getLast? := by
          rw [List.getLast?_append, List.getLast?_append, ih, List.getLast?_cons]
          rfl
  | case2 digits hfew => rw [groupFromEnd.eq_2 digits hfew]

theorem groupFromEnd_eq_nil_iff : groupFromEnd digits = [] ↔ digits = [] := by
  rw [← List.getLast?_eq_none_iff, getLast?_groupFromEnd, List.getLast?_eq_none_iff]

/-- Counted from the end, every fourth character but the first one of the row is a comma. -/
theorem getElem?_groupFromEnd (h : ',' ∉ digits) (i : Nat) : (groupFromEnd digits)[i]? = some ',' ↔
    i % 4 = 3 ∧ i + 1 < (groupFromEnd digits).length := by
  induction digits using groupFromEnd.induct generalizing i with
  | case1 a b c d rest ih =>
    have hrest : ',' ∉ d :: rest := fun hmem => h (List.mem_append_right [a, b, c] hmem)
    have hpos : 0 < (groupFromEnd (d :: rest)).length :=
      List.length_pos_iff.mpr fun hnil => by cases groupFromEnd_eq_nil_iff.mp hnil
    simp only [List.mem_cons, not_or] at h
    rw [groupFromEnd.eq_1]
    match i with
    | 0 => simp [Ne.symm h.1]
    | 1 => simp [Ne.symm h.2.1]
    | 2 => simp [Ne.symm h.2.2.1]
    | 3 => simpa using hpos
    | i + 4 =>
      simp only [List.getElem?_cons_succ, List.length_cons, ih hrest i]
      omega
  | case2 digits hfew =>
    have hshort : digits.length ≤ 3 := by
      match digits with
      | [] | [_] | [_, _] | [_, _, _] => simp
      | a :: b :: c :: d :: rest => exact (hfew a b c d rest rfl).elim
    rw [groupFromEnd.eq_2 digits hfew]
    refine iff_of_false (fun hcomma => h (List.mem_of_getElem? hcomma)) ?_
    omega

/-! ### Groups -/

theorem filter_grouped (h : ',' ∉ digits) : (grouped digits).filter (· ≠ ',') = digits := by
  rw [grouped, List.filter_reverse, filter_groupFromEnd (by rwa [List.mem_reverse]),
    List.reverse_reverse]

theorem mem_of_mem_grouped (h : ',' ∉ digits) (hc : c ∈ grouped digits) : c = ',' ∨ c ∈ digits := by
  by_cases hcomma : c = ','
  · exact .inl hcomma
  · rw [← filter_grouped h]
    exact .inr (List.mem_filter.mpr ⟨hc, decide_eq_true hcomma⟩)

theorem head?_grouped : (grouped digits).head? = digits.head? := by
  rw [grouped, List.head?_reverse, getLast?_groupFromEnd, List.getLast?_reverse]

/-- **Where the commas are.** A character of a row in groups is a comma exactly if the count of those
after it is three, seven and so on, and there are characters before it. -/
theorem eq_comma_iff_of_grouped (h : ',' ∉ digits) (hsplit : grouped digits = before ++ c :: after) :
    c = ',' ↔ after.length % 4 = 3 ∧ before ≠ [] := by
  have hreverse : groupFromEnd digits.reverse = after.reverse ++ c :: before.reverse := by
    rw [← List.reverse_reverse (groupFromEnd _), ← grouped, hsplit, List.reverse_append,
      List.reverse_cons, List.append_assoc]
    rfl
  have hdigits : ',' ∉ digits.reverse := by rwa [List.mem_reverse]
  have hcomma := getElem?_groupFromEnd hdigits after.length
  rw [hreverse, List.getElem?_append_right (by simp)] at hcomma
  simpa [List.length_pos_iff] using hcomma

/-- There are commas in a row in groups if it has more than three digits. -/
theorem comma_mem_grouped (h : ',' ∉ digits) : ',' ∈ grouped digits ↔ 3 < digits.length := by
  rw [← List.mem_reverse] at h
  rw [grouped, List.mem_reverse, ← List.length_reverse]
  match digits.reverse, h with
  | [], h | [_], h | [_, _], h | [_, _, _], h => exact iff_of_false h (by simp)
  | a :: b :: c :: d :: rest, _ => exact iff_of_true (by simp [groupFromEnd]) (by simp)

/-! ### A fixed count of places -/

theorem roundAt_places (places num den : Nat) :
    roundAt num den (-places) = roundDiv (num * 10 ^ places) den := by
  cases places with
  | zero =>
    show roundDiv num (den * powerOfTen 0) = _
    rw [powerOfTen_eq, Nat.pow_zero, Nat.mul_one, Nat.mul_one]
  | succ k => rfl

/-- **A number with a fixed count of places** is the nearest count of units of the last place, with a
point in front of the places. -/
theorem fixedDigits_eq (places num den : Nat) : fixedDigits places num den =
    grouped (Nat.toDigits 10 (roundDiv (num * 10 ^ places) den / 10 ^ places)) ++
      if places = 0 then [] else '.' :: Text.padZeros places
        (Nat.toDigits 10 (roundDiv (num * 10 ^ places) den % 10 ^ places)) := by
  rw [fixedDigits, roundAt_places]
  split
  · rw [List.append_nil]
    rfl
  · rfl

theorem padZeros_zero {width : Nat} (h : 0 < width) :
    Text.padZeros width (Nat.toDigits 10 0) = List.replicate width '0' := by
  obtain ⟨k, rfl⟩ := Nat.exists_eq_succ_of_ne_zero h.ne'
  rw [Nat.toDigits_zero, Text.padZeros, List.replicate_succ']
  rfl

/-- **An integer with a fixed count of places** is its numeral in groups, with zeros for the
places. -/
theorem fixedDigits_integer (places m : Nat) {den : Nat} (hden : 0 < den) :
    fixedDigits places (m * den) den = grouped (Nat.toDigits 10 m) ++
      if places = 0 then [] else '.' :: List.replicate places '0' := by
  have hround : roundDiv (m * den * 10 ^ places) den = m * 10 ^ places := by
    rw [Nat.mul_right_comm, roundDiv_mul_self _ hden]
  rw [fixedDigits_eq, hround, Nat.mul_div_cancel m (Nat.pow_pos (by decide)), Nat.mul_mod_left]
  split
  · rfl
  · next hplaces => rw [padZeros_zero (Nat.pos_of_ne_zero hplaces)]

end Spreadsheet.Decimal
