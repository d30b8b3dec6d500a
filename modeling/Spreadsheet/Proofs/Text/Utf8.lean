import Spreadsheet.Text.Utf8
import Mathlib.Data.List.Basic
import Mathlib.Tactic.SplitIfs

/-! # UTF-8 read back

A character beyond ASCII is an octet that leads to a position inside it (`leading_inside_iff`), and
octets that continue it from there (`Continues`); together they are the octets that the character is
written as. So octets are read as characters exactly if they are what the characters are written as
(`decode_eq_some_iff`). -/

namespace Spreadsheet.Utf8

/-! ### Octets read in parts -/

/-- What has been met before is carried along. -/
theorem step_append (p : Position) (met old : List (Option Char)) (b : UInt8) :
    step (p, met ++ old) b = ((step (p, met) b).1, (step (p, met) b).2 ++ old) := by
  have hbetween : ∀ met : List (Option Char), stepBetween (met ++ old) b
      = ((stepBetween met b).1, (stepBetween met b).2 ++ old) := fun met => by
    unfold stepBetween
    split <;> rfl
  cases p with
  | between => exact hbetween met
  | inside low high owed code =>
    simp only [step]
    split
    · split <;> rfl
    · exact hbetween (none :: met)

theorem foldl_step_append (octets : List UInt8) (p : Position) (met old : List (Option Char)) :
    octets.foldl step (p, met ++ old)
      = ((octets.foldl step (p, met)).1, (octets.foldl step (p, met)).2 ++ old) := by
  induction octets generalizing p met with
  | nil => rfl
  | cons b octets ih =>
    rw [List.foldl_cons, List.foldl_cons, step_append]
    exact ih _ _

/-- The octets break off no character at their end. -/
def Whole (octets : List UInt8) : Prop :=
  (octets.foldl step (.between, [])).1 = .between

theorem parts_append {a : List UInt8} (h : Whole a) (b : List UInt8) :
    parts (a ++ b) = parts a ++ parts b := by
  obtain ⟨met, ha⟩ : ∃ met, a.foldl step (.between, []) = (.between, met) := ⟨_, Prod.ext h rfl⟩
  have hb := foldl_step_append b .between [] met
  rw [List.nil_append] at hb
  unfold parts
  rw [List.foldl_append, ha, hb]
  cases b.foldl step (.between, []) with
  | mk p later => cases p <;> simp

/-! ### ASCII -/

theorem leading_ascii {b : UInt8} (h : b < 0x80) : leading b = some (.inl (Char.ofNat b.toNat)) := by
  rw [leading, if_pos h]

theorem encode_append (cs ds : List Char) : encode (cs ++ ds) = encode cs ++ encode ds :=
  List.flatMap_append

theorem encode_ascii {c : Char} (h : c.toNat < 0x80) : encode [c] = [UInt8.ofNat c.toNat] := by
  have hc : c.val.toNat ≤ 127 := Nat.le_of_lt_succ h
  rw [encode, List.flatMap_cons, List.flatMap_nil, List.append_nil, String.utf8EncodeChar, if_pos hc]
  rfl

theorem toNat_ofNat_ascii {c : Char} (h : c.toNat < 0x80) :
    (UInt8.ofNat c.toNat).toNat = c.toNat := by
  rw [UInt8.toNat_ofNat', Nat.mod_eq_of_lt (by omega)]

theorem ofNat_ascii_lt {c : Char} (h : c.toNat < 0x80) : UInt8.ofNat c.toNat < 0x80 := by
  rw [UInt8.lt_iff_toNat_lt, toNat_ofNat_ascii h]
  exact h

/-! ### One character -/

/-- **Octets complete a character** from a position inside it on; `n` is its code. -/
inductive Continues : Position → List UInt8 → Nat → Prop
  | last {low high b : UInt8} {code n : Nat} (hlow : low ≤ b) (hhigh : b ≤ high)
      (hn : n = code * 64 + (b.toNat - 0x80)) : Continues (.inside low high 0 code) [b] n
  | more {low high b : UInt8} {owed code n : Nat} {tail : List UInt8} (hlow : low ≤ b)
      (hhigh : b ≤ high)
      (h : Continues (.inside 0x80 0xbf owed (code * 64 + (b.toNat - 0x80))) tail n) :
      Continues (.inside low high (owed + 1) code) (b :: tail) n

variable {b : UInt8} {p : Position} {tail : List UInt8} {n : Nat}

theorem Continues.foldl (h : Continues p tail n) (met : List (Option Char)) :
    tail.foldl step (p, met) = (.between, some (Char.ofNat n) :: met) := by
  induction h with
  | last hlow hhigh hn =>
    simp only [List.foldl_cons, List.foldl_nil, step, if_pos (And.intro hlow hhigh), hn]
  | more hlow hhigh _ ih =>
    simp only [List.foldl_cons, step, if_pos (And.intro hlow hhigh)]
    exact ih

/-- Which octets lead into a character of two, three or four octets. The bounds of the next octet
shut out codes that have shorter forms, surrogates, and what is no code. -/
theorem leading_inside_iff {low high : UInt8} {owed code : Nat} :
    leading b = some (.inr (.inside low high owed code)) ↔
      owed = 0 ∧ b.toNat = 0xc0 + code ∧ 2 ≤ code ∧ code < 0x20 ∧
        low.toNat = 0x80 ∧ high.toNat = 0xbf ∨
      owed = 1 ∧ b.toNat = 0xe0 + code ∧ code < 0x10 ∧
        (low.toNat = 0xa0 ∧ code = 0 ∨ low.toNat = 0x80 ∧ code ≠ 0) ∧
        (high.toNat = 0x9f ∧ code = 13 ∨ high.toNat = 0xbf ∧ code ≠ 13) ∨
      owed = 2 ∧ b.toNat = 0xf0 + code ∧ code < 5 ∧
        (low.toNat = 0x90 ∧ code = 0 ∨ low.toNat = 0x80 ∧ code ≠ 0) ∧
        (high.toNat = 0x8f ∧ code = 4 ∨ high.toNat = 0xbf ∧ code ≠ 4) := by
  have hb := b.toNat_lt
  unfold leading
  simp only [UInt8.lt_iff_toNat_lt, UInt8.le_iff_toNat_le, ← UInt8.toNat_inj]
  split_ifs <;> simp [← UInt8.toNat_inj] at * <;> omega

theorem toNat_ofNat {n : Nat} (h : n.isValidChar) : (Char.ofNat n).toNat = n := by
  rw [Char.ofNat, dif_pos h]
  rfl

theorem octet_eq_iff {n : Nat} : UInt8.ofNat n = b ↔ n % 256 = b.toNat := by
  rw [← UInt8.toNat_inj, UInt8.toNat_ofNat']

theorem encode_beyond_ascii (hn : n.isValidChar) (h : 0x7f < n) : encode [Char.ofNat n] =
    if n ≤ 0x7ff then [UInt8.ofNat (n / 64 % 32 + 0xc0), UInt8.ofNat (n % 64 + 0x80)]
    else if n ≤ 0xffff then [UInt8.ofNat (n / 4096 % 16 + 0xe0),
      UInt8.ofNat (n / 64 % 64 + 0x80), UInt8.ofNat (n % 64 + 0x80)]
    else [UInt8.ofNat (n / 262144 % 8 + 0xf0), UInt8.ofNat (n / 4096 % 64 + 0x80),
      UInt8.ofNat (n / 64 % 64 + 0x80), UInt8.ofNat (n % 64 + 0x80)] := by
  rw [encode, List.flatMap_cons, List.flatMap_nil, List.append_nil, String.utf8EncodeChar,
    show (Char.ofNat n).val.toNat = n from toNat_ofNat hn, if_neg (by omega)]

theorem leading_ne_between : leading b ≠ some (.inr .between) := fun h => by
  unfold leading at h
  split_ifs at h <;> cases h

theorem lt_of_leading_inr (hb : leading b = some (.inr p)) : 0xbf < b := by
  cases p with
  | between => exact absurd hb leading_ne_between
  | inside low high owed code =>
    rw [leading_inside_iff] at hb
    rw [UInt8.lt_iff_toNat_lt]
    show 0xbf < b.toNat
    omega

/-- **The octets of a character** are the one that leads into it and those that complete it. -/
theorem encode_of_leading (hb : leading b = some (.inr p)) (h : Continues p tail n) :
    encode [Char.ofNat n] = b :: tail := by
  have hbounds : (0x80 : UInt8).toNat = 0x80 ∧ (0xbf : UInt8).toNat = 0xbf := ⟨rfl, rfl⟩
  cases h with
  | last hlow hhigh hn =>
    rw [leading_inside_iff] at hb
    rw [UInt8.le_iff_toNat_le] at hlow hhigh
    rw [encode_beyond_ascii (.inl (by omega)) (by omega), if_pos (by omega)]
    simp only [List.cons.injEq, octet_eq_iff, and_true]
    omega
  | more hlow hhigh h =>
    rw [leading_inside_iff] at hb
    rw [UInt8.le_iff_toNat_le] at hlow hhigh
    cases h with
    | last hlow' hhigh' hn =>
      rw [UInt8.le_iff_toNat_le] at hlow' hhigh'
      have hvalid : n.isValidChar := by unfold Nat.isValidChar; omega
      rw [encode_beyond_ascii hvalid (by omega), if_neg (by omega), if_pos (by omega)]
      simp only [List.cons.injEq, octet_eq_iff, and_true]
      omega
    | more hlow' hhigh' h =>
      rw [UInt8.le_iff_toNat_le] at hlow' hhigh'
      cases h with
      | last hlow'' hhigh'' hn =>
        rw [UInt8.le_iff_toNat_le] at hlow'' hhigh''
        have hvalid : n.isValidChar := by unfold Nat.isValidChar; omega
        rw [encode_beyond_ascii hvalid (by omega), if_neg (by omega), if_neg (by omega)]
        simp only [List.cons.injEq, octet_eq_iff, and_true]
        omega
      | more => omega

theorem exists_octet {k : Nat} (h : k < 0x100) : ∃ b : UInt8, b.toNat = k :=
  ⟨UInt8.ofNat k, by rw [UInt8.toNat_ofNat', Nat.mod_eq_of_lt h]⟩

/-- A bound of the octet after a leading one, with another value for one code. -/
theorem exists_bound (code special : Nat) {k m : Nat} (hk : k < 0x100) (hm : m < 0x100) :
    ∃ bound : UInt8, bound.toNat = k ∧ code = special ∨ bound.toNat = m ∧ code ≠ special := by
  obtain ⟨x, hx⟩ := exists_octet hk
  obtain ⟨y, hy⟩ := exists_octet hm
  by_cases h : code = special
  · exact ⟨x, .inl ⟨hx, h⟩⟩
  · exact ⟨y, .inr ⟨hy, h⟩⟩

/-- **Every character beyond ASCII** has such octets. -/
theorem exists_leading {c : Char} (h : 0x7f < c.toNat) :
    ∃ b p tail, leading b = some (.inr p) ∧ Continues p tail c.toNat := by
  have hvalid : c.toNat.isValidChar := c.valid
  unfold Nat.isValidChar at hvalid
  generalize c.toNat = n at h hvalid
  have hbounds : (0x80 : UInt8).toNat = 0x80 ∧ (0xbf : UInt8).toNat = 0xbf := ⟨rfl, rfl⟩
  have hle : ∀ {x y : UInt8}, x.toNat ≤ y.toNat → x ≤ y := UInt8.le_iff_toNat_le.mpr
  -- The octets after the leading one, the last of them first.
  obtain ⟨b₁, h₁⟩ := exists_octet (k := 0x80 + n % 0x40) (by omega)
  obtain ⟨b₂, h₂⟩ := exists_octet (k := 0x80 + n / 0x40 % 0x40) (by omega)
  obtain ⟨b₃, h₃⟩ := exists_octet (k := 0x80 + n / 0x1000 % 0x40) (by omega)
  rcases Nat.lt_or_ge n 0x800 with htwo | htwo
  · obtain ⟨b, hb⟩ := exists_octet (k := 0xc0 + n / 0x40) (by omega)
    refine ⟨b, .inside 0x80 0xbf 0 (n / 0x40), [b₁], leading_inside_iff.mpr ?_, ?_⟩
    · exact .inl ⟨rfl, hb, by omega, by omega, hbounds⟩
    · exact .last (hle (by omega)) (hle (by omega)) (by omega)
  rcases Nat.lt_or_ge n 0x10000 with hthree | hthree
  · obtain ⟨b, hb⟩ := exists_octet (k := 0xe0 + n / 0x1000) (by omega)
    obtain ⟨low, hlow⟩ := exists_bound (n / 0x1000) 0 (k := 0xa0) (m := 0x80) (by omega) (by omega)
    obtain ⟨high, hhigh⟩ :=
      exists_bound (n / 0x1000) 13 (k := 0x9f) (m := 0xbf) (by omega) (by omega)
    refine ⟨b, .inside low high 1 (n / 0x1000), [b₂, b₁], leading_inside_iff.mpr ?_, ?_⟩
    · exact .inr (.inl ⟨rfl, hb, by omega, hlow, hhigh⟩)
    · refine .more (hle (by omega)) (hle (by omega)) ?_
      exact .last (hle (by omega)) (hle (by omega)) (by omega)
  · obtain ⟨b, hb⟩ := exists_octet (k := 0xf0 + n / 0x40000) (by omega)
    obtain ⟨low, hlow⟩ := exists_bound (n / 0x40000) 0 (k := 0x90) (m := 0x80) (by omega) (by omega)
    obtain ⟨high, hhigh⟩ :=
      exists_bound (n / 0x40000) 4 (k := 0x8f) (m := 0xbf) (by omega) (by omega)
    refine ⟨b, .inside low high 2 (n / 0x40000), [b₃, b₂, b₁], leading_inside_iff.mpr ?_, ?_⟩
    · exact .inr (.inr ⟨rfl, hb, by omega, hlow, hhigh⟩)
    · refine .more (hle (by omega)) (hle (by omega)) (.more (hle (by omega)) (hle (by omega)) ?_)
      exact .last (hle (by omega)) (hle (by omega)) (by omega)

/-- **A character is read back** from its octets, whatever has been met. -/
theorem foldl_encode (c : Char) (met : List (Option Char)) :
    (encode [c]).foldl step (.between, met) = (.between, some c :: met) := by
  rcases Nat.lt_or_ge 0x7f c.toNat with h | h
  · obtain ⟨b, p, tail, hb, hp⟩ := exists_leading h
    have hoctets := encode_of_leading hb hp
    rw [Char.ofNat_toNat] at hoctets
    rw [hoctets, List.foldl_cons, step, stepBetween, hb]
    simp only [hp.foldl, Char.ofNat_toNat]
  · have hascii : c.toNat < 0x80 := Nat.lt_succ_of_le h
    rw [encode_ascii hascii, List.foldl_cons, List.foldl_nil, step, stepBetween,
      leading_ascii (ofNat_ascii_lt hascii), toNat_ofNat_ascii hascii, Char.ofNat_toNat]

/-! ### All characters -/

theorem foldl_encode_all (cs : List Char) (met : List (Option Char)) :
    (encode cs).foldl step (.between, met) = (.between, (cs.map some).reverse ++ met) := by
  induction cs generalizing met with
  | nil => rfl
  | cons c cs ih =>
    rw [← List.singleton_append, encode_append, List.foldl_append, foldl_encode, ih]
    simp

theorem whole_encode (cs : List Char) : Whole (encode cs) := by
  rw [Whole, foldl_encode_all]

theorem parts_encode (cs : List Char) : parts (encode cs) = cs.map some := by
  rw [parts, foldl_encode_all, List.append_nil]
  exact List.reverse_reverse _

/-- What is invalid stays met. -/
theorem none_mem_foldl {met : List (Option Char)} (h : none ∈ met) (p : Position)
    (octets : List UInt8) : none ∈ (octets.foldl step (p, met)).2 := by
  have happend := foldl_step_append octets p [] met
  rw [List.nil_append] at happend
  rw [happend]
  exact List.mem_append_right _ h

/-- Something invalid has been met, or the end is inside a character. -/
def Broken (s : Position × List (Option Char)) : Prop :=
  none ∈ s.2 ∨ s.1 ≠ .between

theorem none_mem_parts_iff {octets : List UInt8} :
    none ∈ parts octets ↔ Broken (octets.foldl step (.between, [])) := by
  unfold parts Broken
  cases octets.foldl step (.between, []) with
  | mk p met => cases p <;> simp

theorem broken_stepBetween {met : List (Option Char)} (h : none ∈ met) (b : UInt8)
    (octets : List UInt8) : Broken (octets.foldl step (stepBetween met b)) := by
  have hmet : none ∈ (stepBetween met b).2 := by
    unfold stepBetween
    split
    · exact List.mem_cons_of_mem _ h
    · exact h
    · exact List.mem_cons_self
  exact .inl (none_mem_foldl hmet _ octets)

/-- **Inside a character**, the octets complete it or are no characters. -/
theorem completes_or_broken {low high : UInt8} {owed code : Nat} (octets : List UInt8) :
    (∃ tail rest n, octets = tail ++ rest ∧ Continues (.inside low high owed code) tail n) ∨
      ∀ met, Broken (octets.foldl step (.inside low high owed code, met)) := by
  induction octets generalizing low high owed code with
  | nil => exact .inr fun _ => .inr fun h => by cases h
  | cons b octets ih =>
    by_cases hbounds : low ≤ b ∧ b ≤ high
    · cases owed with
      | zero => exact .inl ⟨[b], octets, _, rfl, .last hbounds.1 hbounds.2 rfl⟩
      | succ owed =>
        obtain ⟨tail, rest, n, rfl, h⟩ | h := @ih 0x80 0xbf owed (code * 64 + (b.toNat - 0x80))
        · exact .inl ⟨b :: tail, rest, n, rfl, .more hbounds.1 hbounds.2 h⟩
        · refine .inr fun met => ?_
          simp only [List.foldl_cons, step, if_pos hbounds]
          exact h met
    · refine .inr fun met => ?_
      simp only [List.foldl_cons, step, if_neg hbounds]
      exact broken_stepBetween List.mem_cons_self b octets

/-- An octet that is a character of its own is what it is written as. -/
theorem encode_of_leading_inl {c : Char} (hb : leading b = some (.inl c)) : encode [c] = [b] := by
  unfold leading at hb
  split_ifs at hb with hascii <;> cases hb
  have hlt : b.toNat < 0x80 := UInt8.lt_iff_toNat_lt.mp hascii
  have hcode : (Char.ofNat b.toNat).toNat = b.toNat := toNat_ofNat (.inl (by omega))
  rw [encode_ascii (by omega), hcode, UInt8.ofNat_toNat]

/-- **Octets start with a character** or are no characters. -/
theorem starts_or_broken (b : UInt8) (octets : List UInt8) :
    (∃ c rest, b :: octets = encode [c] ++ rest) ∨ none ∈ parts (b :: octets) := by
  rw [none_mem_parts_iff, List.foldl_cons, step, stepBetween]
  cases hb : leading b with
  | none => exact .inr (.inl (none_mem_foldl List.mem_cons_self _ _))
  | some start =>
    cases start with
    | inl c => exact .inl ⟨c, octets, by rw [encode_of_leading_inl hb, List.singleton_append]⟩
    | inr p =>
      cases p with
      | between => exact absurd hb leading_ne_between
      | inside low high owed code =>
        obtain ⟨tail, rest, n, rfl, h⟩ | h := completes_or_broken octets
        · exact .inl ⟨Char.ofNat n, rest, by rw [encode_of_leading hb h, List.cons_append]⟩
        · exact .inr (h [])

theorem exists_encode_of_parts {octets : List UInt8} (h : none ∉ parts octets) :
    ∃ cs, octets = encode cs := by
  induction hn : octets.length using Nat.strongRecOn generalizing octets with
  | ind n ih =>
    cases octets with
    | nil => exact ⟨[], rfl⟩
    | cons b octets =>
      obtain ⟨c, rest, hcons⟩ := (starts_or_broken b octets).resolve_right h
      rw [hcons, parts_append (whole_encode [c])] at h
      have hlength : rest.length < n := by
        have hpos : 0 < (encode [c]).length := by
          rw [encode, List.flatMap_singleton]
          exact String.length_utf8EncodeChar c ▸ Char.utf8Size_pos c
        rw [← hn, hcons, List.length_append]
        omega
      obtain ⟨cs, rfl⟩ := ih _ hlength (fun hnone => h (List.mem_append_right _ hnone)) rfl
      exact ⟨c :: cs, by rw [hcons, ← encode_append, List.singleton_append]⟩

theorem mapM_id_eq_some {α : Type} {l : List (Option α)} {as : List α} :
    l.mapM id = some as ↔ l = as.map some := by
  induction l generalizing as with
  | nil => cases as <;> simp
  | cons x l ih =>
    cases x with
    | none => cases as <;> simp [List.mapM_cons]
    | some a => cases as <;> simp [List.mapM_cons, Option.bind_eq_some_iff, ih, and_comm]

/-- **Octets are read as characters** exactly if they are what the characters are written as. -/
theorem decode_eq_some_iff {octets : List UInt8} {cs : List Char} :
    decode octets = some cs ↔ octets = encode cs := by
  rw [decode, mapM_id_eq_some]
  constructor
  · intro h
    have hnone : none ∉ parts octets := by simp [h]
    obtain ⟨ds, rfl⟩ := exists_encode_of_parts hnone
    rw [parts_encode] at h
    rw [List.map_injective_iff.mpr (fun _ _ => Option.some.inj) h]
  · rintro rfl
    exact parts_encode cs

theorem decode_eq_none_iff {octets : List UInt8} :
    decode octets = none ↔ ∀ cs, octets ≠ encode cs := by
  simp only [Option.eq_none_iff_forall_ne_some, ne_eq, decode_eq_some_iff]

end Spreadsheet.Utf8
