import Spreadsheet.Proofs.Decimal.Spellings
import Spreadsheet.Proofs.Kpi

/-! # Where whole dollars begin

Whether a key figure is in whole dollars is decided by the magnitude of the number, which is rounded
afterwards. So a number just below 1000 is shown as `1,000`, without a dollar sign: the text has one
from 1000 on, while what it displays is 1000 or more from 999.9995 on, and then the text has a comma
(`kpi_threshold`).

A text is put together from a sign, a dollar sign or none, an integer in groups and the digits after
the point (`layout`); the two forms of key figures are `exists_dollars` and `exists_places`. -/

namespace Spreadsheet

open Binary64 Decimal

namespace Kpi

variable {n : Number} {q : ℚ} {s dollar : Bool} {m : Nat} {ds : List Char} {code : Fin codes}

/-! ### Magnitudes -/

/-- The number is an integer or finite, and has the magnitude. -/
inductive Measures : Number → ℚ → Prop
  | int (n : Int) : Measures (.int n) n.natAbs
  | finite (negative : Bool) (code : Fin codes) :
      Measures (.float (.finite negative code)) (ratOf code)

/-- The text displays the magnitude: without dollar signs and commas it is a decimal text of it. -/
def Displays (text : String) (q : ℚ) : Prop :=
  ∃ p : Spelling, p.text = text.toList.filter (fun c => c ≠ '$' ∧ c ≠ ',') ∧ p.magnitude = q

/-- A text displays one magnitude only. -/
theorem Displays.iff {text : String} (hq : Displays text q) {r : ℚ} : Displays text r ↔ r = q := by
  refine ⟨fun hr => ?_, fun h => h ▸ hq⟩
  obtain ⟨p, hp, rfl⟩ := hq
  obtain ⟨p', hp', rfl⟩ := hr
  exact Spelling.magnitude_eq_of_text (hp'.trans hp.symm)

/-- A number and its magnitude become the same number of the format, apart from the sign. -/
theorem Measures.toFloat_cases (h : Measures n q) :
    limit ≤ q ∧ n.toFloat = .error .integer ∧ n.abs.toFloat = .error .integer ∨
      ∃ s code, Nearest q code ∧ n.toFloat = .ok (.finite s code) ∧
        n.abs.toFloat = .ok (.finite false code) := by
  cases h with
  | finite s code => exact .inr ⟨s, code, nearest_ratOf code, rfl, rfl⟩
  | int n =>
    have hsign : decide ((n.natAbs : Int) < 0) = false := decide_eq_false (by omega)
    have habs := Number.ofIntNearest_natAbs n.natAbs
    rw [Int.natAbs_natCast, hsign] at habs
    rcases Number.ofIntNearest_natAbs n, habs with
      ⟨⟨code, hnear, hint⟩ | ⟨hbeyond, hint⟩, ⟨code', hnear', hint'⟩ | ⟨hbeyond', hint'⟩⟩
    · obtain rfl := hnear.unique hnear'
      exact .inr ⟨n < 0, code, hnear, hint, hint'⟩
    · exact absurd hnear.lt_limit (not_lt.mpr hbeyond')
    · exact absurd hnear'.lt_limit (not_lt.mpr hbeyond)
    · exact .inl ⟨hbeyond, hint, hint'⟩

/-- A number below 1000 is in the format. -/
theorem Measures.ratOf_eq (h : Measures n q) (hq : q < 1000) (hnear : Nearest q code) :
    ratOf code = q := by
  cases h with
  | finite s code' => exact hnear.ratOf_eq rfl
  | int n =>
    have hless : n.natAbs < 1000 := by exact_mod_cast hq
    obtain ⟨code', hcode⟩ := inFormat_of_le (z := n) (by omega)
    exact hnear.ratOf_eq hcode

theorem thousand_le_ratOf (hq : 1000 ≤ q) (hnear : Nearest q code) : 1000 ≤ ratOf code := by
  obtain ⟨thousand, hthousand⟩ := inFormat_of_le (z := 1000) (by decide)
  have hthousand' : ratOf thousand = 1000 := by rw [hthousand]; norm_num
  have hcode := (codeNear_eq_iff_nearest (by linarith) code).mpr hnear
  rw [← hthousand', ← hcode, ← codeNear_ratOf thousand]
  refine ratOf_strictMono.monotone (codeNear_mono (ratOf_nonneg _) ?_)
  rw [hthousand']
  exact hq

theorem le_ratOf_iff {k : Nat} : (k : ℚ) ≤ ratOf code ↔ k * unit ≤ units code := by
  rw [ratOf, le_div_iff₀ cast_unit_pos]
  exact_mod_cast Iff.rfl

theorem reachesDollars_iff (h : Measures n q) : reachesDollars n = true ↔ 1000 ≤ q := by
  cases h with
  | int n =>
    rw [reachesDollars_int, decide_eq_true_iff]
    exact_mod_cast Iff.rfl
  | finite s code =>
    have horder : (Number.abs (.float (.finite s code))).order? dollarsFrom =
        some (compare (signedUnits false code) (1000 * unit)) := Number.order?_finite_int
    have hle : (1000 : ℚ) ≤ ratOf code ↔ 1000 * unit ≤ units code := le_ratOf_iff (k := 1000)
    rw [reachesDollars_of_order horder, decide_eq_true_iff, hle, signedUnits_false]
    exact_mod_cast Iff.rfl

/-! ### How a text is put together -/

/-- The point and the digits after it, if there are any. -/
def fractionText (ds : List Char) : List Char :=
  if ds = [] then [] else '.' :: ds

/-- A sign, a dollar sign perhaps, an integer in groups and the digits after the point. -/
def layout (s dollar : Bool) (m : Nat) (ds : List Char) : List Char :=
  front s dollar ++ (grouped (Nat.toDigits 10 m) ++ fractionText ds)

theorem of_mem_fractionText {c : Char} (hds : AsciiDigits ds) (h : c ∈ fractionText ds) :
    c = '.' ∨ isAsciiDigit c = true := by
  unfold fractionText at h
  split at h
  · cases h
  · exact (List.mem_cons.mp h).imp_right (hds c)

theorem not_mem_fractionText {c : Char} (hds : AsciiDigits ds) (hpoint : c ≠ '.')
    (hc : isAsciiDigit c = false) : c ∉ fractionText ds := fun h => by
  rcases of_mem_fractionText hds h with rfl | hdigit
  · exact hpoint rfl
  · rw [hdigit] at hc
    cases hc

/-- The dollar sign is the one in front. -/
theorem dollar_mem_layout (hds : AsciiDigits ds) : '$' ∈ layout s dollar m ds ↔ dollar = true := by
  have hfront : '$' ∈ front s dollar ↔ dollar = true := by cases s <;> cases dollar <;> decide
  rw [layout, List.mem_append, List.mem_append, hfront, or_iff_left (not_or.mpr
    ⟨not_mem_grouped_toDigits (by decide) (by decide),
      not_mem_fractionText hds (by decide) (by decide)⟩)]

/-- There is a comma if the integer has more than three digits. -/
theorem comma_mem_layout (hds : AsciiDigits ds) : ',' ∈ layout s dollar m ds ↔ 1000 ≤ m := by
  have hfront : ',' ∉ front s dollar := fun h => (of_mem_front h).2.1 rfl
  rw [layout, List.mem_append, List.mem_append, or_iff_right hfront,
    or_iff_left (not_mem_fractionText hds (by decide) (by decide)),
    comma_mem_grouped (not_mem_toDigits (by decide)), lt_length_toDigits_iff (by decide)]
  norm_num

/-- The text without dollar signs and commas. -/
def spelling (s : Bool) (m : Nat) (hds : AsciiDigits ds) : Spelling where
  sign := if s then .minus else .none
  whole := Nat.toDigits 10 m
  fraction := if ds = [] then none else some ds
  exponent := none
  whole_ascii := asciiDigits_toDigits m
  fraction_ascii x hx := by
    split at hx
    · cases hx
    · exact Option.some.inj hx ▸ hds
  some_digit := .inl Nat.toDigits_ne_nil

theorem text_spelling (s dollar : Bool) (m : Nat) (hds : AsciiDigits ds) : (spelling s m hds).text =
    (layout s dollar m ds).filter (fun c => c ≠ '$' ∧ c ≠ ',') := by
  have hfraction : (fractionText ds).filter (fun c => c ≠ '$' ∧ c ≠ ',') = fractionText ds := by
    refine List.filter_eq_self.mpr fun c hc => decide_eq_true ⟨?_, ?_⟩ <;> rintro rfl
    · exact not_mem_fractionText hds (by decide) (by decide) hc
    · exact not_mem_fractionText hds (by decide) (by decide) hc
  have hsign : (spelling s m hds).sign.text = Decimal.sign s := by cases s <;> rfl
  have hafter : (spelling s m hds).fractionText = fractionText ds := by cases ds <;> rfl
  rw [layout, List.filter_append, List.filter_append, filter_front, filter_grouped_toDigits,
    hfraction, Spelling.text, hsign, hafter]
  show _ ++ (_ ++ (_ ++ [])) = _
  rw [List.append_nil]
  rfl

theorem magnitude_spelling (s : Bool) (m : Nat) (hds : AsciiDigits ds) :
    (spelling s m hds).magnitude =
      decimal (Text.digitsValue (Nat.toDigits 10 m ++ ds)) (-ds.length) := by
  have hfraction : (spelling s m hds).fraction.getD [] = ds := by cases ds <;> rfl
  rw [Spelling.magnitude, Spelling.digits, Spelling.place, hfraction]
  show decimal _ (0 - _) = _
  rw [zero_sub]
  rfl

/-- **What a text displays** is the number that the digits on both sides of the point write. -/
theorem displays_layout (s dollar : Bool) (m : Nat) (hds : AsciiDigits ds) :
    Displays (String.ofList (layout s dollar m ds))
      (decimal (Text.digitsValue (Nat.toDigits 10 m ++ ds)) (-ds.length)) :=
  ⟨spelling s m hds, by rw [String.toList_ofList, text_spelling s dollar],
    magnitude_spelling s m hds⟩

/-! ### The two forms -/

/-- A number in whole dollars. -/
theorem exists_dollars (h : n.abs.toFloat = .ok (.finite false code)) : ∃ s, dollars n =
    .ok (layout s true (roundDiv (units code) unit) []) := by
  have hfixed : fixedList 0 (.finite false code) =
      grouped (Nat.toDigits 10 (roundDiv (units code) unit)) := by
    show fixedDigits 0 (units code) unit = _
    rw [fixedDigits_eq, if_pos rfl, List.append_nil, Nat.pow_zero, Nat.mul_one, Nat.div_one]
  refine ⟨n.order? 0 = some .lt, ?_⟩
  rw [dollars, h, Function.ok_bind, hfixed, layout, front, fractionText, if_pos rfl, if_pos rfl,
    List.append_nil, List.append_assoc]
  rfl

/-- Zeros at the end are dropped, and a point with nothing after it. -/
theorem dropEmptyPlaces_append {whole : List Char} (hpoint : '.' ∉ whole) (hds : AsciiDigits ds)
    (hlast : ∀ c ∈ ds.getLast?, c ≠ '0') (k : Nat) :
    dropEmptyPlaces (whole ++ '.' :: (ds ++ List.replicate k '0')) = whole ++ fractionText ds := by
  rcases List.eq_nil_or_concat' ds with rfl | ⟨front, c, rfl⟩
  · rw [List.nil_append, dropEmptyPlaces_zeros hpoint, fractionText, if_pos rfl, List.append_nil]
  · have hzero : c ≠ '0' := hlast c (by simp)
    have hc : c ≠ '.' := fun heq => absurd (hds '.' (by simp [heq])) (by decide)
    have hreverse : (whole ++ '.' :: (front ++ [c] ++ List.replicate k '0')).reverse =
        List.replicate k '0' ++ c :: (whole ++ '.' :: front).reverse := by simp
    rw [dropEmptyPlaces, hreverse, List.dropWhile_append_of_pos (by simp),
      List.dropWhile_cons_of_neg (by simpa using hzero),
      List.dropWhile_cons_of_neg (by simpa using hc), fractionText, if_neg (by simp)]
    simp

/-- The digits after the point of a count of thousandths, without the zeros at their end. -/
structure Thousandths (m : Nat) (ds : List Char) : Prop where
  zeros : ∃ k, Text.padZeros 3 (Nat.toDigits 10 (m % 1000)) = ds ++ List.replicate k '0'
  last : ∀ c ∈ ds.getLast?, c ≠ '0'

theorem exists_thousandths (m : Nat) : ∃ ds, Thousandths m ds := by
  obtain ⟨ds, k, hzeros, hlast⟩ :=
    exists_append_zeros (Text.padZeros 3 (Nat.toDigits 10 (m % 1000)))
  exact ⟨ds, ⟨k, hzeros⟩, hlast⟩

theorem Thousandths.ascii (h : Thousandths m ds) : AsciiDigits ds := fun c hc => by
  obtain ⟨k, hzeros⟩ := h.zeros
  exact asciiDigits_padZeros 3 (m % 1000) c (hzeros ▸ List.mem_append_left _ hc)

/-- The digits on both sides of the point write the count of thousandths. -/
theorem Thousandths.value (h : Thousandths m ds) :
    decimal (Text.digitsValue (Nat.toDigits 10 (m / 1000) ++ ds)) (-ds.length) = m / 1000 := by
  obtain ⟨k, hzeros⟩ := h.zeros
  have hlength : ds.length + k = 3 := by
    have hdigits : (Nat.toDigits 10 (m % 1000)).length ≤ 3 :=
      (Nat.length_toDigits_le_iff (by omega) (by omega)).mpr (Nat.mod_lt m (by omega))
    have := congrArg List.length hzeros
    rw [Text.length_padZeros, List.length_append, List.length_replicate] at this
    omega
  have hvalue : Text.digitsValue (Nat.toDigits 10 (m / 1000) ++ ds) * 10 ^ k = m := by
    have hall := digitsValue_append_digits (asciiDigits_toDigits (m / 1000))
      (asciiDigits_padZeros 3 (m % 1000))
    rw [digitsValue_toDigits, digitsValue_padZeros, hzeros, List.length_append,
      List.length_replicate, hlength, ← List.append_assoc, digitsValue_append_zeros] at hall
    omega
  have hpow : (10 : ℚ) ^ (-(ds.length : Int)) = 10 ^ k / 1000 := by
    rw [show (-(ds.length : Int)) = (k : Int) - 3 by omega, zpow_sub₀ (by norm_num), zpow_natCast]
    norm_num
  rw [decimal, hpow, ← mul_div_assoc]
  exact_mod_cast congrArg (fun x : Nat => (x / 1000 : ℚ)) hvalue

theorem Thousandths.eq_nil (h : Thousandths m ds) (hm : m % 1000 = 0) : ds = [] := by
  obtain ⟨k, hzeros⟩ := h.zeros
  rw [hm, padZeros_zero (by decide)] at hzeros
  rcases List.eq_nil_or_concat' ds with rfl | ⟨front, c, rfl⟩
  · rfl
  · have hc : c ∈ List.replicate 3 '0' := by simp [hzeros]
    exact absurd (List.eq_of_mem_replicate hc) (h.last c (by simp))

theorem exists_layout_cons (m : Nat) (ds : List Char) : ∃ c rest, c.isDigit = true ∧
    layout false false m ds = c :: rest ∧ layout true false m ds = '-' :: c :: rest := by
  obtain ⟨c, cs, hdigits⟩ := List.exists_cons_of_ne_nil (Nat.toDigits_ne_nil (b := 10) (n := m))
  have hhead : (grouped (Nat.toDigits 10 m)).head? = some c := by
    rw [head?_grouped, hdigits, List.head?_cons]
  obtain ⟨rest, hgroups⟩ := List.head?_eq_some_iff.mp hhead
  refine ⟨c, rest ++ fractionText ds, isDigit_of_mem_toDigits (hdigits ▸ List.mem_cons_self), ?_, ?_⟩
  · rw [layout, hgroups]
    rfl
  · rw [layout, hgroups]
    rfl

/-- A number with at most three places after the point; a zero has no sign. -/
theorem exists_places (h : n.toFloat = .ok (.finite s code)) : ∃ s' ds,
    Thousandths (roundDiv (units code * 1000) unit) ds ∧
      places n = .ok (layout s' false (roundDiv (units code * 1000) unit / 1000) ds) := by
  obtain ⟨m, hm⟩ : ∃ m, m = roundDiv (units code * 1000) unit := ⟨_, rfl⟩
  rw [← hm]
  obtain ⟨ds, hds⟩ := exists_thousandths m
  obtain ⟨k, hzeros⟩ := hds.zeros
  obtain ⟨whole, hwhole⟩ : ∃ whole, whole = grouped (Nat.toDigits 10 (m / 1000)) := ⟨_, rfl⟩
  have hpoint : '.' ∉ front s false ++ whole := by
    rw [hwhole, List.mem_append, not_or]
    exact ⟨fun hmem => (of_mem_front hmem).2.2 rfl, not_mem_grouped_toDigits (by decide) (by decide)⟩
  have hfixed : fixedList 3 (.finite s code) =
      front s false ++ whole ++ '.' :: (ds ++ List.replicate k '0') := by
    show Decimal.sign s ++ fixedDigits 3 (units code) unit = _
    rw [fixedDigits_eq, if_neg (by decide), ← hzeros, front, hwhole, hm]
    simp
  have htext : dropEmptyPlaces (fixedList 3 (.finite s code)) = layout s false (m / 1000) ds := by
    rw [hfixed, dropEmptyPlaces_append hpoint hds.ascii hds.last, hwhole, layout, List.append_assoc]
  have hplaces : places n = .ok (if layout s false (m / 1000) ds = [] ∨
      layout s false (m / 1000) ds = ['-', '0'] then ['0'] else layout s false (m / 1000) ds) := by
    rw [places, h, Function.ok_bind, htext]
    rfl
  rw [hplaces]
  obtain ⟨c, rest, hdigit, hplain, hminus⟩ := exists_layout_cons (m / 1000) ds
  by_cases hzero : layout s false (m / 1000) ds = ['-', '0']
  · refine ⟨false, ds, hds, ?_⟩
    cases s with
    | false =>
      rw [hplain] at hzero
      rw [(List.cons.inj hzero).1] at hdigit
      cases hdigit
    | true => rw [if_pos (.inr hzero), hplain, ← (List.cons.inj (hminus.symm.trans hzero)).2]
  · refine ⟨s, ds, hds, if_neg ?_ ▸ rfl⟩
    rintro (hnil | hzero')
    · cases s with
      | false => cases hplain.symm.trans hnil
      | true => cases hminus.symm.trans hnil
    · exact hzero hzero'

/-! ### From where on there are dollars -/

/-- **A key figure of a number of the magnitude**, and the one magnitude that it displays. -/
structure Renders (q : ℚ) (text : String) (shown : ℚ) : Prop where
  displays : ∀ r, Displays text r ↔ r = shown
  dollar : '$' ∈ text.toList ↔ 1000 ≤ q
  thousand : 1000 ≤ shown ↔ 999.9995 ≤ q
  comma : ',' ∈ text.toList ↔ 1000 ≤ shown
  between : q < 1000 → 1000 ≤ shown → text = "1,000" ∨ text = "-1,000"

theorem renders_dollars (s : Bool) (hq : 1000 ≤ q) (hm : 1000 ≤ m) :
    Renders q (String.ofList (layout s true m [])) m where
  displays := by
    have hshown := displays_layout s true m asciiDigits_nil
    rw [List.append_nil, digitsValue_toDigits] at hshown
    exact fun r => Displays.iff (by simpa [decimal] using hshown)
  dollar := by
    rw [String.toList_ofList, dollar_mem_layout asciiDigits_nil]
    exact iff_of_true rfl hq
  thousand := iff_of_true (by exact_mod_cast hm) (by linarith)
  comma := by
    rw [String.toList_ofList, comma_mem_layout asciiDigits_nil]
    exact_mod_cast Iff.rfl
  between hless := absurd hq (not_le.mpr hless)

/-- The thousandths of a number make a thousand from half of one below it on. -/
theorem million_le_iff : 1000000 ≤ roundDiv (units code * 1000) unit ↔
    999.9995 ≤ ratOf code := by
  rw [le_roundDiv_iff unit_pos (by decide), ratOf, le_div_iff₀ cast_unit_pos]
  generalize units code = a
  generalize unit = u
  rw [← Nat.cast_le (α := ℚ)]
  push_cast
  constructor <;> intro h <;> linarith

theorem renders_places (s : Bool) (hm : m = roundDiv (units code * 1000) unit)
    (hq : ratOf code < 1000) (hds : Thousandths m ds) :
    Renders (ratOf code) (String.ofList (layout s false (m / 1000) ds)) (m / 1000) := by
  have hthousand : (1000 : ℚ) ≤ m / 1000 ↔ 1000000 ≤ m := by
    rw [le_div_iff₀ (by norm_num), ← Nat.cast_le (α := ℚ)]
    norm_num
  refine ⟨?_, ?_, ?_, ?_, fun _ hshown => ?_⟩
  · rw [← hds.value]
    exact fun r => (displays_layout s false (m / 1000) hds.ascii).iff
  · rw [String.toList_ofList, dollar_mem_layout hds.ascii]
    exact iff_of_false (by decide) (not_le.mpr hq)
  · rw [hthousand, hm, million_le_iff]
  · rw [String.toList_ofList, comma_mem_layout hds.ascii, hthousand]
    omega
  · -- The number is below 1000, so it is rounded to a thousand exactly.
    have hless : units code * 1000 ≤ 1000000 * unit := by
      have hunits : ¬ 1000 * unit ≤ units code := mt le_ratOf_iff.mpr (not_le.mpr hq)
      generalize unit = u at *
      omega
    have hle : m ≤ 1000000 := hm ▸ roundDiv_le unit_pos hless
    obtain rfl : m = 1000000 := hle.antisymm (hthousand.mp hshown)
    obtain rfl := hds.eq_nil (by decide)
    cases s with
    | false => exact .inl (by decide)
    | true => exact .inr (by decide)

/-- **Dollars are chosen before rounding.** A key figure of an integer or of a finite number that is
not beyond the format has a dollar sign from 1000 on. It displays 1000 or more from 999.9995 on, and
exactly then it has a comma; so below 1000 it has one only as `1,000`, with a minus perhaps. -/
theorem kpi_threshold (h : Measures n q) :
    limit ≤ q ∧ (Value.scalar (.number n)).kpi = .error (.overflow .integer) ∨
      ∃ text shown, (Value.scalar (.number n)).kpi = .ok text ∧ Renders q text shown := by
  have hkpi : (Value.scalar (.number n)).kpi =
      ((number n).map String.ofList).mapError .overflow := rfl
  rw [hkpi]
  have hreaches := reachesDollars_iff h
  rcases h.toFloat_cases with ⟨hbeyond, -, habs⟩ | ⟨s, code, hnear, hfloat, habs⟩
  · have hthousand : (1000 : ℚ) < limit := lt_trans (by norm_num) (two_pow_lt_limit (k := 10) (by omega))
    refine .inl ⟨hbeyond, ?_⟩
    rw [number, if_pos (hreaches.mpr (hthousand.le.trans hbeyond)), dollars, habs,
      Function.error_bind]
    rfl
  · by_cases hq : 1000 ≤ q
    · obtain ⟨s', hdollars⟩ := exists_dollars habs
      have hm : 1000 ≤ roundDiv (units code) unit :=
        le_roundDiv unit_pos (le_ratOf_iff.mp (thousand_le_ratOf hq hnear))
      refine .inr ⟨_, _, ?_, renders_dollars s' hq hm⟩
      rw [number, if_pos (hreaches.mpr hq), hdollars]
      rfl
    · have hratOf := h.ratOf_eq (not_le.mp hq) hnear
      obtain ⟨s', ds, hds, hplaces⟩ := exists_places hfloat
      refine .inr ⟨_, _, ?_, hratOf ▸ renders_places s' rfl (hratOf ▸ not_le.mp hq) hds⟩
      rw [number, if_neg (mt hreaches.mp hq), hplaces]
      rfl

/-- The number of the format nearest to 999.9996. -/
def justBelow : Fin codes := ⟨0x408f3fff2e48e8a7, by decide⟩

theorem kpi_justBelow :
    (Value.scalar (.number (.float (.finite false justBelow)))).kpi = .ok "1,000" := by
  decide +kernel

theorem kpi_threshold_justBelow :
    Measures (.float (.finite false justBelow)) (ratOf justBelow) ∧
      ∃ shown, (Value.scalar (.number (.float (.finite false justBelow)))).kpi = .ok "1,000" ∧
        Renders (ratOf justBelow) "1,000" shown := by
  refine ⟨.finite false justBelow, ?_⟩
  rcases kpi_threshold (.finite false justBelow) with ⟨-, herror⟩ | ⟨text, shown, htext, hrenders⟩
  · cases kpi_justBelow.symm.trans herror
  · obtain rfl := Except.ok.inj (kpi_justBelow.symm.trans htext)
    exact ⟨shown, htext, hrenders⟩

/-- A number just below 1000 displays 1000 and has a comma, but no dollar sign. -/
theorem not_chosen_by_display : ¬ ∀ (n : Number) (q : ℚ) (text : String) (shown : ℚ),
    Measures n q → (Value.scalar (.number n)).kpi = .ok text → Displays text shown →
      ('$' ∈ text.toList ↔ 1000 ≤ shown) ∧ ('$' ∉ text.toList → ',' ∉ text.toList) := by
  intro h
  have hdisplays : Displays "1,000" 1000 := by
    have hshown := displays_layout false false 1000 asciiDigits_nil
    rw [List.append_nil, digitsValue_toDigits] at hshown
    have htext : String.ofList (layout false false 1000 []) = "1,000" := by decide
    rw [htext] at hshown
    simpa [decimal] using hshown
  obtain ⟨hdollar, -⟩ := h _ _ _ _ (.finite false justBelow) kpi_justBelow hdisplays
  exact absurd (hdollar.mpr le_rfl) (by decide)

end Kpi

end Spreadsheet
