import Spreadsheet.Proofs.Log.Damage

/-! # Windows on a journal

What is read of a journal is its longest end that starts with a line and has no more octets than the
window (`isWindow_tail`). What a smaller window leaves out of it ends with a line, and is read by
itself, so only the older values are lost (`values_narrowed`). -/

namespace Spreadsheet

namespace Log

namespace Journal

variable {octets v w : List UInt8} {size : Int}

/-! ### Ends that start with a line -/

/-- **An end of octets that starts with a line**: all of them, or what follows an end of a line. -/
def StartsLine (octets w : List UInt8) : Prop :=
  w = octets ∨ lineEnd :: w <:+ octets

theorem StartsLine.suffix (h : StartsLine octets w) : w <:+ octets := by
  rcases h with rfl | h
  · exact List.suffix_refl _
  · exact (List.suffix_cons _ _).trans h

/-- It starts with a line in every end that has it. -/
theorem StartsLine.of_suffix (h : StartsLine octets w) (hv : v <:+ octets) (hw : w <:+ v) :
    StartsLine v w := by
  rcases h with rfl | h
  · exact .inl (hw.eq_of_length_le hv.length_le)
  · rcases hw.length_le.eq_or_lt with heq | hlt
    · exact .inl (hw.eq_of_length heq)
    · exact .inr (List.suffix_of_suffix_length_le h hv hlt)

theorem afterLineEnd_cons (b : UInt8) (octets : List UInt8) : afterLineEnd (b :: octets)
    = if b = lineEnd then octets else afterLineEnd octets := by
  unfold afterLineEnd
  by_cases h : b = lineEnd <;> simp [h]

theorem afterLineEnd_of_not_mem (h : lineEnd ∉ octets) : afterLineEnd octets = [] := by
  induction octets with
  | nil => rfl
  | cons b octets ih =>
    rw [List.mem_cons, not_or] at h
    rw [afterLineEnd_cons, if_neg (Ne.symm h.1)]
    exact ih h.2

theorem lineEnd_cons_afterLineEnd (h : lineEnd ∈ octets) :
    lineEnd :: afterLineEnd octets <:+ octets := by
  induction octets with
  | nil => cases h
  | cons b octets ih =>
    rw [afterLineEnd_cons]
    split
    · next hb => exact hb ▸ List.suffix_refl _
    · next hb =>
      exact (ih ((List.mem_cons.mp h).resolve_left (Ne.symm hb))).trans (List.suffix_cons _ _)

/-- What follows any end of a line is found after the first one. -/
theorem suffix_afterLineEnd (h : lineEnd :: w <:+ octets) : w <:+ afterLineEnd octets := by
  induction octets with
  | nil => simp at h
  | cons b octets ih =>
    rw [afterLineEnd_cons]
    rcases List.suffix_cons_iff.mp h with heq | h
    · obtain ⟨rfl, rfl⟩ := List.cons.inj heq
      rw [if_pos rfl]
    · split
      · exact (List.suffix_cons _ _).trans h
      · exact ih h

/-! ### The window -/

/-- **The longest end that starts with a line** and has at most `size` octets; no octet at all if
every such end is longer. -/
structure IsWindow (size : Int) (octets window : List UInt8) : Prop where
  fits : window.length ≤ size
  starts : StartsLine octets window ∨
    window = [] ∧ ∀ w, StartsLine octets w → ¬ (w.length : Int) ≤ size
  longest : ∀ w, StartsLine octets w → (w.length : Int) ≤ size → w <:+ window

theorem isWindow_tail (h : 0 ≤ size) (octets : List UInt8) :
    IsWindow size octets (tail size octets) := by
  unfold tail
  split
  · next hfits => exact ⟨hfits, .inl (.inl rfl), fun w hw _ => hw.suffix⟩
  · next hlong =>
    obtain ⟨rest, hrest⟩ : ∃ rest, rest = octets.drop (octets.length - size - 1).toNat := ⟨_, rfl⟩
    have hsuffix : rest <:+ octets := hrest ▸ List.drop_suffix _ _
    have hlength : (rest.length : Int) = size + 1 := by
      rw [hrest, List.length_drop]
      omega
    -- An end that fits starts after an end of a line among the last `size + 1` octets.
    have hafter : ∀ w, StartsLine octets w → (w.length : Int) ≤ size → lineEnd :: w <:+ rest := by
      rintro w (rfl | hw) hfits
      · exact absurd hfits hlong
      · refine List.suffix_of_suffix_length_le hw hsuffix ?_
        rw [List.length_cons]
        omega
    rw [← hrest]
    by_cases hmem : lineEnd ∈ rest
    · have hstarts := lineEnd_cons_afterLineEnd hmem
      refine ⟨?_, .inl (.inr (hstarts.trans hsuffix)), fun w hw hfits =>
        suffix_afterLineEnd (hafter w hw hfits)⟩
      have hle := hstarts.length_le
      rw [List.length_cons] at hle
      omega
    · have hnone : ∀ w, StartsLine octets w → ¬ (w.length : Int) ≤ size := fun w hw hfits =>
        hmem ((hafter w hw hfits).mem List.mem_cons_self)
      rw [afterLineEnd_of_not_mem hmem]
      exact ⟨h, .inr ⟨rfl, hnone⟩, fun w hw hfits => absurd hfits (hnone w hw)⟩

/-- The window of a smaller size is no octet at all, or starts with a line in the greater one. -/
theorem IsWindow.narrow {small great : Int} (hv : IsWindow great octets v)
    (hw : IsWindow small octets w) (hle : small ≤ great) : StartsLine v w ∨ w = [] := by
  rcases hw.starts with hstarts | ⟨rfl, -⟩
  · have hsuffix : v <:+ octets := by
      rcases hv.starts with h | ⟨rfl, -⟩
      · exact h.suffix
      · exact List.nil_suffix
    exact .inl (hstarts.of_suffix hsuffix (hv.longest w hstarts (hw.fits.trans hle)))
  · exact .inr rfl

/-! ### What is read through it -/

theorem endsLine_concat (front : List UInt8) : Utf8.EndsLine (front ++ [lineEnd]) :=
  ⟨front, '\n', rfl, by decide⟩

/-- **An end that starts with a line** holds the last of the values. -/
theorem StartsLine.exists_held (h : StartsLine octets w) {values : List Value}
    (hvalues : held octets = .ok values) : ∃ last, held w = .ok last ∧ last <:+ values := by
  rcases h with rfl | ⟨front, rfl⟩
  · exact ⟨values, hvalues, List.suffix_refl _⟩
  · rw [← List.singleton_append, ← List.append_assoc, held_append (endsLine_concat front)] at hvalues
    obtain ⟨first, -, hvalues⟩ := exists_ok_of_bind hvalues
    obtain ⟨last, hlast, happend⟩ := exists_ok_of_bind hvalues
    exact ⟨last, hlast, ⟨first, Except.ok.inj happend⟩⟩

end Journal

open Journal in
/-- **A smaller window loses older values alone.** The octets that are read and decoded are the
longest end of the journal that starts with a line and fits in the window, and the values that a
smaller window gives are the last of those that a greater one gives. -/
theorem values_narrowed {small great : Int} (hsmall : 0 ≤ small) (hle : small ≤ great)
    (octets : List UInt8) : IsWindow small octets (tail small octets) ∧
    ∀ later, Journal.values great octets = .ok later →
      ∃ earlier, Journal.values small octets = .ok earlier ∧ earlier <:+ later := by
  have hw := isWindow_tail hsmall octets
  have hv := isWindow_tail (hsmall.trans hle) octets
  refine ⟨hw, fun later hlater => ?_⟩
  rcases hv.narrow hw hle with hstarts | hnone
  · exact hstarts.exists_held hlater
  · refine ⟨[], ?_, List.nil_suffix⟩
    rw [Journal.values, hnone]
    rfl

/-- Four lines: the second is no text, the third ends with two octets, and the last one is torn. -/
def fourLines : List UInt8 :=
  Utf8.encode "7\n".toList ++ [0xff, 10] ++ Utf8.encode "[1]\r\n8".toList

open Journal in
/-- A window of six octets opens with the third line. -/
theorem values_narrowed_fourLines : (0 : Int) ≤ 6 ∧ (6 : Int) ≤ 10 ∧
    IsWindow 6 fourLines (tail 6 fourLines) ∧
    Journal.values 10 fourLines = .ok [.int 7, .list [.int 1], .int 8] ∧
    ∃ earlier, Journal.values 6 fourLines = .ok earlier ∧
      earlier <:+ [.int 7, .list [.int 1], .int 8] := by
  have hvalues : Journal.values 10 fourLines = .ok [.int 7, .list [.int 1], .int 8] := by rfl
  have hsmall : (0 : Int) ≤ 6 := by decide
  have hle : (6 : Int) ≤ 10 := by decide
  obtain ⟨hwindow, hnarrow⟩ := values_narrowed hsmall hle fourLines
  exact ⟨hsmall, hle, hwindow, hvalues, hnarrow _ hvalues⟩

end Log

end Spreadsheet
