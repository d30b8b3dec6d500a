import Spreadsheet.Kpi
import Spreadsheet.Proofs.Decimal.Grouping
import Spreadsheet.Proofs.Formula.RoundedIntegers
import Spreadsheet.Proofs.Json.Tokens

/-! # Integers as key figures

A key figure writes an integer as floating point numbers are written, so what it shows is the number
of the format nearest to the integer, in groups of three digits (`number_int_cases`). It shows the
integer itself exactly if the integer is in the format (`kpi_shows_iff`): from 2^53 on most
integers are shown as another one, and beyond the format there is no text at all. -/

namespace Spreadsheet

open Binary64

namespace Kpi

variable {n z : Int} {m : Nat} {code : Fin codes} {text : List Char} {c : Char}

/-! ### Numerals with a sign -/

theorem toList_toString (n : Int) :
    (toString n).toList = Decimal.sign (n < 0) ++ Nat.toDigits 10 n.natAbs := by
  rw [← Json.text_integerParts]
  exact (List.append_nil _).trans (List.append_nil _)

theorem isDigit_of_mem_toDigits (h : c ∈ Nat.toDigits 10 m) : c.isDigit = true :=
  Nat.isDigit_of_mem_toDigits (by decide) (by decide) h

theorem not_mem_toDigits (h : c.isDigit = false) : c ∉ Nat.toDigits 10 m := fun hc => by
  rw [isDigit_of_mem_toDigits hc] at h
  cases h

theorem not_mem_grouped_toDigits (h : c.isDigit = false) (hcomma : c ≠ ',') :
    c ∉ Decimal.grouped (Nat.toDigits 10 m) := fun hc =>
  (Decimal.mem_of_mem_grouped (not_mem_toDigits (by decide)) hc).elim hcomma (not_mem_toDigits h)

/-- A numeral with its sign says what it is the numeral of. -/
theorem sign_append_injective {s t : Bool} {k m : Nat}
    (h : Decimal.sign s ++ Nat.toDigits 10 k = Decimal.sign t ++ Nat.toDigits 10 m) :
    s = t ∧ k = m := by
  have hminus : ∀ k m, '-' :: Nat.toDigits 10 k ≠ Nat.toDigits 10 m := fun k m heq =>
    not_mem_toDigits (m := m) (by decide) (heq ▸ List.mem_cons_self)
  have hsign : s = t := by
    cases s <;> cases t
    · rfl
    · exact (hminus m k h.symm).elim
    · exact (hminus k m h).elim
    · rfl
  subst hsign
  have hdigits := List.append_cancel_left h
  exact ⟨rfl, by rw [← Decimal.digitsValue_toDigits k, hdigits, Decimal.digitsValue_toDigits]⟩

/-! ### Texts that show an integer -/

/-- The text shows the integer: without dollar signs and commas it is the numeral, and a character is
a comma exactly if three, seven and so on are after it and a digit is before it. -/
structure Shows (n : Int) (text : String) : Prop where
  numeral : text.toList.filter (fun c => c ≠ '$' ∧ c ≠ ',') = (toString n).toList
  commas : ∀ before c after, text.toList = before ++ c :: after →
    (c = ',' ↔ after.length % 4 = 3 ∧ ∃ d ∈ before, d.isDigit = true)

/-- A text shows one integer only. -/
theorem Shows.unique {text : String} (hn : Shows n text) (hz : Shows z text) : n = z := by
  have hsame := hn.numeral.symm.trans hz.numeral
  rw [toList_toString, toList_toString] at hsame
  obtain ⟨hsign, habs⟩ := sign_append_injective hsame
  have hsign' := decide_eq_decide.mp hsign
  omega

/-- What is in front of the digits: the sign, and a dollar sign perhaps. -/
def front (negative dollar : Bool) : List Char :=
  Decimal.sign negative ++ if dollar then ['$'] else []

/-- In front there is no digit, no comma and no point. -/
theorem of_mem_front {negative dollar : Bool} (h : c ∈ front negative dollar) :
    c.isDigit = false ∧ c ≠ ',' ∧ c ≠ '.' := by
  have hc : c = '-' ∨ c = '$' := by
    cases negative <;> cases dollar <;> simp [front, Decimal.sign] at h <;> simp [h]
  rcases hc with rfl | rfl <;> decide

theorem filter_front (negative dollar : Bool) :
    (front negative dollar).filter (fun c => c ≠ '$' ∧ c ≠ ',') = Decimal.sign negative := by
  cases negative <;> cases dollar <;> rfl

/-- There is a digit before a character of a row in groups, unless the character is the first. -/
theorem exists_digit_iff {negative dollar : Bool} {digits cs after : List Char}
    (hall : ∀ d ∈ digits, d.isDigit = true) (hsplit : Decimal.grouped digits = cs ++ c :: after) :
    (∃ d ∈ front negative dollar ++ cs, d.isDigit = true) ↔ cs ≠ [] := by
  constructor
  · rintro ⟨d, hd, hdigit⟩ rfl
    rw [List.append_nil] at hd
    rw [(of_mem_front hd).1] at hdigit
    cases hdigit
  · intro hne
    obtain ⟨d, cs, rfl⟩ := List.exists_cons_of_ne_nil hne
    have hhead : digits.head? = some d := by
      rw [← Decimal.head?_grouped, hsplit]
      rfl
    exact ⟨d, List.mem_append_right _ List.mem_cons_self, hall d (List.mem_of_mem_head? hhead)⟩

/-- Where the commas are if something is in front of the digits. -/
theorem eq_comma_iff_of_front {negative dollar : Bool} {digits before after : List Char}
    (hall : ∀ d ∈ digits, d.isDigit = true)
    (hsplit : front negative dollar ++ Decimal.grouped digits = before ++ c :: after) :
    c = ',' ↔ after.length % 4 = 3 ∧ ∃ d ∈ before, d.isDigit = true := by
  have hcomma : ',' ∉ digits := fun hmem => absurd (hall ',' hmem) (by decide)
  rcases List.append_eq_append_iff.mp hsplit with ⟨cs, rfl, hcs⟩ | ⟨_ | ⟨b, bs⟩, hfront, hrest⟩
  · rw [Decimal.eq_comma_iff_of_grouped hcomma hcs, exists_digit_iff hall hcs]
  · have hfirst : Decimal.grouped digits = [] ++ c :: after := hrest.symm
    rw [List.append_nil] at hfront
    rw [Decimal.eq_comma_iff_of_grouped hcomma hfirst, ← exists_digit_iff hall hfirst, hfront,
      List.append_nil]
  · obtain ⟨rfl, -⟩ := List.cons.inj hrest
    have hc : c ∈ front negative dollar := by simp [hfront]
    have hbefore : ∀ d ∈ before, d ∈ front negative dollar := fun d hd => by simp [hfront, hd]
    refine iff_of_false (of_mem_front hc).2.1 ?_
    rintro ⟨-, d, hd, hdigit⟩
    rw [(of_mem_front (hbefore d hd)).1] at hdigit
    cases hdigit

theorem filter_grouped_toDigits (m : Nat) :
    (Decimal.grouped (Nat.toDigits 10 m)).filter (fun c => c ≠ '$' ∧ c ≠ ',') =
      Nat.toDigits 10 m := by
  simp only [Bool.decide_and]
  rw [← List.filter_filter, Decimal.filter_grouped (not_mem_toDigits (by decide)),
    Decimal.filter_ne_of_not_mem (not_mem_toDigits (by decide))]

/-- **Digits in groups show the integer**, after its sign and a dollar sign perhaps. -/
theorem shows_grouped (z : Int) (dollar : Bool) : Shows z (String.ofList
    (front (z < 0) dollar ++ Decimal.grouped (Nat.toDigits 10 z.natAbs))) where
  numeral := by
    rw [String.toList_ofList, List.filter_append, filter_front, filter_grouped_toDigits,
      toList_toString]
  commas before c after hsplit :=
    eq_comma_iff_of_front (fun _ => isDigit_of_mem_toDigits) (String.toList_ofList ▸ hsplit)

/-! ### Numbers of the format -/

/-- An integer of the format is written as its numeral in groups. -/
theorem fixedList_integer (places : Nat) (negative : Bool) (h : ratOf code = m) :
    Decimal.fixedList places (.finite negative code) =
      Decimal.sign negative ++ (Decimal.grouped (Nat.toDigits 10 m) ++
        if places = 0 then [] else '.' :: List.replicate places '0') := by
  rw [← Decimal.fixedDigits_integer places m unit_pos, ← ratOf_eq_iff.mp h]
  rfl

theorem dropEmptyPlaces_zeros (h : '.' ∉ text) (k : Nat) :
    dropEmptyPlaces (text ++ '.' :: List.replicate k '0') = text := by
  have hzeros : (text ++ '.' :: List.replicate k '0').reverse.dropWhile (· = '0') =
      '.' :: text.reverse := by
    rw [List.reverse_append, List.reverse_cons, List.reverse_replicate, List.append_assoc,
      List.dropWhile_append_of_pos (by simp)]
    rfl
  have hpoint : text.reverse.dropWhile (· = '.') = text.reverse := by
    cases hreverse : text.reverse with
    | nil => rfl
    | cons c cs =>
      refine List.dropWhile_cons_of_neg (p := (· = '.')) fun hc => h ?_
      rw [← of_decide_eq_true hc, ← List.mem_reverse, hreverse]
      exact List.mem_cons_self
  rw [dropEmptyPlaces, hzeros, List.dropWhile_cons_of_pos (by decide), hpoint, List.reverse_reverse]

/-! ### What is shown -/

/-- The integer is the number of the format nearest to the other one, with its sign. -/
def NearestInteger (n z : Int) : Prop :=
  ∃ code : Fin codes, Nearest n.natAbs code ∧ ratOf code = z.natAbs ∧ (z < 0 ↔ n < 0)

theorem exists_nearestInteger (h : Nearest n.natAbs code) :
    ∃ z, NearestInteger n z ∧ ratOf code = z.natAbs := by
  obtain ⟨z, hz, hsign, -⟩ := exists_rounded h
  have hratOf := ratOf_of_signedUnits hz
  exact ⟨z, ⟨code, h, hratOf, hsign⟩, hratOf⟩

/-- The nearest number is the integer itself exactly if this is in the format. -/
theorem NearestInteger.eq_iff (h : NearestInteger n z) : z = n ↔ InFormat n := by
  obtain ⟨code, hnear, hratOf, hsign⟩ := h
  constructor
  · rintro rfl
    exact ⟨code, hratOf⟩
  · rintro ⟨other, hother⟩
    have habs : (z.natAbs : ℚ) = n.natAbs := by rw [← hratOf, hnear.ratOf_eq hother]
    have habs' : z.natAbs = n.natAbs := by exact_mod_cast habs
    omega

theorem reachesDollars_of_order {n : Number} {a b : Int}
    (h : n.abs.order? dollarsFrom = some (compare a b)) : reachesDollars n = decide (b ≤ a) := by
  rw [reachesDollars, h]
  rcases lt_trichotomy a b with h | h | h
  · rw [Int.compare_eq_lt.mpr h, decide_eq_false (by omega)]
  · rw [Int.compare_eq_eq.mpr h, decide_eq_true (by omega)]
  · rw [Int.compare_eq_gt.mpr h, decide_eq_true (by omega)]

theorem reachesDollars_int : reachesDollars (.int n) = decide (1000 ≤ n.natAbs) := by
  have horder : (Number.abs (.int n)).order? dollarsFrom = some (compare (n.natAbs : Int) 1000) := rfl
  rw [reachesDollars_of_order horder, decide_eq_decide]
  omega

/-- A number of the format in whole dollars, after the sign of the integer. -/
theorem dollars_int (hint : Number.ofIntNearest n.natAbs = .ok (.finite false code))
    (hm : ratOf code = m) : dollars (.int n) =
      .ok (front (n < 0) true ++ Decimal.grouped (Nat.toDigits 10 m)) := by
  have hsign : ((Number.int n).order? 0 = some .lt) = (n < 0) := by
    show (some (compare n 0) = some .lt) = _
    rw [Option.some.injEq, Int.compare_eq_lt]
  rw [dollars]
  show (Number.ofIntNearest n.natAbs >>= fun x => .ok _) = _
  rw [hint, Function.ok_bind, fixedList_integer 0 false hm, if_pos rfl, List.append_nil, front,
    List.append_assoc]
  simp only [hsign]
  rfl

/-- An integer without its empty places, which leave something that is not the zero with a sign. -/
theorem places_int (hint : Number.ofIntNearest n = .ok (.finite (n < 0) code))
    (hn : ratOf code = n.natAbs) : places (.int n) =
      .ok (front (n < 0) false ++ Decimal.grouped (Nat.toDigits 10 n.natAbs)) := by
  obtain ⟨text, htext⟩ : ∃ text, text =
    front (n < 0) false ++ Decimal.grouped (Nat.toDigits 10 n.natAbs) := ⟨_, rfl⟩
  have hnumeral : text.filter (fun c => c ≠ '$' ∧ c ≠ ',') =
      Decimal.sign (n < 0) ++ Nat.toDigits 10 n.natAbs := by
    rw [htext, ← toList_toString, ← (shows_grouped n false).numeral, String.toList_ofList]
  have hshown : ¬ (text = [] ∨ text = ['-', '0']) := by
    rintro (rfl | rfl)
    · exact Nat.toDigits_ne_nil (List.append_eq_nil_iff.mp hnumeral.symm).2
    · obtain ⟨hsign, habs⟩ := sign_append_injective (s := true) (k := 0) hnumeral
      have hneg := of_decide_eq_true hsign.symm
      omega
  have hpoint : '.' ∉ text := by
    rw [htext, List.mem_append, not_or]
    exact ⟨fun hmem => (of_mem_front hmem).2.2 rfl, not_mem_grouped_toDigits (by decide) (by decide)⟩
  have hfixed : Decimal.fixedList 3 (.finite (n < 0) code) = text ++ '.' :: List.replicate 3 '0' := by
    rw [fixedList_integer 3 _ hn, if_neg (by decide), htext, front, List.append_assoc,
      List.append_assoc]
    rfl
  rw [places]
  show (Number.ofIntNearest n >>= fun x => _) = _
  rw [hint, Function.ok_bind, hfixed, dropEmptyPlaces_zeros hpoint, ← htext]
  show Except.ok (if text = [] ∨ text = ['-', '0'] then ['0'] else text) = _
  rw [if_neg hshown]

theorem dollars_int_cases (n : Int) : limit ≤ n.natAbs ∧ dollars (.int n) = .error .integer ∨
    ∃ z, NearestInteger n z ∧ dollars (.int n) =
      .ok (front (z < 0) true ++ Decimal.grouped (Nat.toDigits 10 z.natAbs)) := by
  have hsign : decide ((n.natAbs : Int) < 0) = false := decide_eq_false (by omega)
  have hcases := Number.ofIntNearest_natAbs n.natAbs
  rw [Int.natAbs_natCast, hsign] at hcases
  rcases hcases with ⟨code, hnear, hint⟩ | ⟨hbeyond, hint⟩
  · obtain ⟨z, hz, hratOf⟩ := exists_nearestInteger hnear
    obtain ⟨-, -, -, hnegative⟩ := id hz
    exact .inr ⟨z, hz, by rw [dollars_int hint hratOf, decide_eq_decide.mpr hnegative]⟩
  · refine .inl ⟨hbeyond, ?_⟩
    rw [dollars]
    show (Number.ofIntNearest n.natAbs >>= fun x => _) = _
    rw [hint, Function.error_bind]

theorem places_of_inFormat (h : InFormat n) : ∃ z, NearestInteger n z ∧ places (.int n) =
    .ok (front (z < 0) false ++ Decimal.grouped (Nat.toDigits 10 z.natAbs)) := by
  rcases Number.ofIntNearest_natAbs n with ⟨code, hnear, hint⟩ | ⟨hbeyond, -⟩
  · obtain ⟨z, hz, hratOf⟩ := exists_nearestInteger hnear
    obtain rfl := hz.eq_iff.mpr h
    exact ⟨z, hz, places_int hint hratOf⟩
  · exact absurd h.lt_limit (not_lt.mpr hbeyond)

/-- **The key figure of an integer** is the number of the format nearest to it, in groups, or none. -/
theorem number_int_cases (n : Int) : limit ≤ n.natAbs ∧ number (.int n) = .error .integer ∨
    ∃ z dollar, NearestInteger n z ∧ number (.int n) =
      .ok (front (z < 0) dollar ++ Decimal.grouped (Nat.toDigits 10 z.natAbs)) := by
  by_cases hdollars : 1000 ≤ n.natAbs
  · have hnumber : number (.int n) = dollars (.int n) := by
      rw [number, reachesDollars_int, decide_eq_true hdollars, if_pos rfl]
    rw [hnumber]
    exact (dollars_int_cases n).imp_right fun ⟨z, h⟩ => ⟨z, true, h⟩
  · have hnumber : number (.int n) = places (.int n) := by
      rw [number, reachesDollars_int, decide_eq_false hdollars, if_neg (by decide)]
    -- So small an integer is in the format.
    obtain ⟨z, h⟩ := places_of_inFormat (n := n) (inFormat_of_le (by omega))
    rw [hnumber]
    exact .inr ⟨z, false, h⟩

theorem kpi_int_cases (n : Int) :
    limit ≤ n.natAbs ∧ (Value.int n).kpi = .error (.overflow .integer) ∨
      ∃ z text, NearestInteger n z ∧ (Value.int n).kpi = .ok text ∧ Shows z text := by
  have hkpi : (Value.int n).kpi = ((number (.int n)).map String.ofList).mapError .overflow := rfl
  rw [hkpi]
  rcases number_int_cases n with ⟨hbeyond, hnumber⟩ | ⟨z, dollar, hz, hnumber⟩
  · exact .inl ⟨hbeyond, by rw [hnumber]; rfl⟩
  · exact .inr ⟨z, _, hz, by rw [hnumber]; rfl, shows_grouped z dollar⟩

theorem kpi_shows_iff : (∃ text, (Value.int n).kpi = .ok text ∧ Shows n text) ↔ InFormat n := by
  rcases kpi_int_cases n with ⟨hbeyond, hkpi⟩ | ⟨z, text, hz, hkpi, hshows⟩
  · rw [hkpi]
    refine iff_of_false ?_ fun hformat => absurd hformat.lt_limit (not_lt.mpr hbeyond)
    rintro ⟨text, htext, -⟩
    cases htext
  · rw [hkpi, ← hz.eq_iff]
    constructor
    · rintro ⟨text', htext, hshows'⟩
      cases htext
      exact hshows.unique hshows'
    · rintro rfl
      exact ⟨text, rfl, hshows⟩

/-- **Integers as key figures.** An integer that is not beyond the format is shown as the number of
the format nearest to it, with commas between groups of three digits, and no other has a text. What is
shown is the integer itself exactly if the integer is in the format. -/
theorem kpi_int (n : Int) :
    (limit ≤ n.natAbs ∧ (Value.int n).kpi = .error (.overflow .integer) ∨
      ∃ z text, NearestInteger n z ∧ (Value.int n).kpi = .ok text ∧ Shows z text) ∧
    ((∃ text, (Value.int n).kpi = .ok text ∧ Shows n text) ↔ InFormat n) :=
  ⟨kpi_int_cases n, kpi_shows_iff⟩

/-- 2^53 + 1 is not shown as itself. -/
theorem not_shown : ¬ ∀ n : Int, ∃ text, (Value.int n).kpi = .ok text ∧ Shows n text := fun h =>
  Function.not_inFormat_of_odd (z := 9007199254740993) (by decide) (by decide)
    (kpi_shows_iff.mp (h 9007199254740993))

end Kpi

end Spreadsheet
