import Spreadsheet.Proofs.Formula.Terminals

/-! # How a text splits into tokens

A text is read from left to right: blanks are passed over, and else the token at the front is taken
(`Reads`), until the text ends or has no token at its front (`Stops`). What the reader makes of a
text is this (`ofListFrom_eq_iff`). In terms of positions, the tokens tile the text up to where it
stops: they are what stands at their places, and only blanks are between them (`Tiles`).

Main statement: `tokenize_iff_tiles`. -/

namespace Spreadsheet

open Token (Picks Starts NumeralRun isSpace)

/-! ### Reading from left to right -/

/-- **The tokens of a text** that starts at position `start` and that `after` follows. -/
inductive Reads (after : List Char) : Nat → List Char → List Placed → Prop
  | done {start} : Reads after start [] []
  | space {start c cs placed} (hc : isSpace c = true) (h : Reads after (start + 1) cs placed) :
      Reads after start (c :: cs) placed
  | token {start word cs t placed} (ht : Picks word (cs ++ after) t)
      (h : Reads after (start + word.length) cs placed) :
      Reads after start (word ++ cs) (⟨t, start⟩ :: placed)

/-- **No token is at the front** of the text, for this reason. -/
inductive Stops : List Char → SyntaxError → Prop
  | character {c cs} (hspace : isSpace c = false) (hno : ¬ Starts (c :: cs)) :
      Stops (c :: cs) (.unexpectedCharacter c)
  | numeral {word rest} (h : NumeralRun word rest) (hcount : 1 < word.count '.') :
      Stops (word ++ rest) (.invalidNumber (String.ofList word))

/-- Reading ends at position `p`: the text does, or it has a fault there. -/
inductive Halts : List Char → Nat → Option Fault → Prop
  | ended {p} : Halts [] p none
  | fault {cs reason p} (h : Stops cs reason) : Halts cs p (some (.badSyntax reason p))

section

variable {after cs rest word : List Char} {c : Char} {start p : Nat} {t : Token}
  {placed : List Placed} {fault : Option Fault} {reason : SyntaxError} {scan : Scan}

/-- The characters of a token already taken are skipped. -/
theorem ofListFrom_word : ∀ (word : List Char) (start : Nat) (rest : List Char),
    Scan.ofListFrom word.length start (word ++ rest) =
      Scan.ofListFrom 0 (start + word.length) rest
  | [], _, _ => rfl
  | _ :: word, start, rest => by
    rw [List.length_cons, List.cons_append, Scan.ofListFrom, ofListFrom_word word,
      Nat.add_assoc, Nat.add_comm 1]

theorem ofListFrom_space (hc : isSpace c = true) :
    Scan.ofListFrom 0 start (c :: cs) = Scan.ofListFrom 0 (start + 1) cs := by
  simp only [Scan.ofListFrom, hc, if_true]

/-- A token is taken, and reading goes on after it. -/
theorem ofListFrom_token (h : Picks word rest t) : Scan.ofListFrom 0 start (word ++ rest) =
    ⟨⟨t, start⟩ :: (Scan.ofListFrom 0 (start + word.length) rest).tokens,
      (Scan.ofListFrom 0 (start + word.length) rest).fault⟩ := by
  have hfront := h.front_eq
  obtain ⟨c, tail, rfl, hc⟩ := h.exists_cons
  rw [List.cons_append] at hfront ⊢
  simp only [Scan.ofListFrom, hc, Bool.false_eq_true, if_false, hfront, List.length_cons,
    Nat.add_sub_cancel, ofListFrom_word, Nat.add_assoc, Nat.add_comm 1]

/-- Where no token is at the front, reading ends. -/
theorem Stops.ofListFrom_eq (h : Stops cs reason) :
    Scan.ofListFrom 0 p cs = ⟨[], some (.badSyntax reason p)⟩ := by
  cases h with
  | character hspace hno =>
    simp only [Scan.ofListFrom, hspace, Bool.false_eq_true, if_false,
      Token.front_eq_stray_iff.mpr hno]
  | @numeral word rest h hcount =>
    have hfront := h.front_eq
    rw [if_neg (by omega)] at hfront
    obtain ⟨c, tail, rfl, hc⟩ := h.exists_cons
    rw [List.cons_append] at hfront ⊢
    simp only [Scan.ofListFrom, hc, Bool.false_eq_true, if_false, hfront]

theorem Halts.ofListFrom_eq (h : Halts cs p fault) : Scan.ofListFrom 0 p cs = ⟨[], fault⟩ := by
  cases h with
  | ended => rfl
  | fault h => exact h.ofListFrom_eq

/-- A text has ended, starts with a blank or a token, or stops the reader. -/
theorem text_cases (cs : List Char) : cs = [] ∨
    (∃ c rest, cs = c :: rest ∧ isSpace c = true) ∨
    (∃ word rest t, cs = word ++ rest ∧ Picks word rest t) ∨ ∃ reason, Stops cs reason := by
  rcases Token.front_cases cs with h | ⟨word, rest, rfl, hrun, hcount⟩ | hstray
  · exact Or.inr (Or.inr (Or.inl h))
  · exact Or.inr (Or.inr (Or.inr ⟨_, .numeral hrun hcount⟩))
  · cases cs with
    | nil => exact Or.inl rfl
    | cons c rest =>
      cases hc : isSpace c with
      | true => exact Or.inr (Or.inl ⟨c, rest, rfl, hc⟩)
      | false =>
        have hno := Token.front_eq_stray_iff.mp hstray
        exact Or.inr (Or.inr (Or.inr ⟨_, .character hc hno⟩))

/-- What has been read of a text comes first, then what is read of the rest. -/
theorem Reads.ofListFrom_eq (h : Reads after start cs placed) :
    Scan.ofListFrom 0 start (cs ++ after) =
      ⟨placed ++ (Scan.ofListFrom 0 (start + cs.length) after).tokens,
        (Scan.ofListFrom 0 (start + cs.length) after).fault⟩ := by
  induction h with
  | done => rfl
  | space hc _ ih =>
    rw [List.cons_append, ofListFrom_space hc, ih, List.length_cons, Nat.add_assoc, Nat.add_comm 1]
  | token ht _ ih =>
    rw [List.append_assoc, ofListFrom_token ht, ih, List.length_append, Nat.add_assoc]
    rfl

/-- The induction is on the length of the text, since a token takes several characters. -/
theorem exists_reads (cs : List Char) (start : Nat) : ∃ front rest, cs = front ++ rest ∧
    Reads rest start front (Scan.ofListFrom 0 start cs).tokens ∧
      Halts rest (start + front.length) (Scan.ofListFrom 0 start cs).fault := by
  induction hlen : cs.length using Nat.strong_induction_on generalizing cs start with | _ n ih
  rcases text_cases cs with rfl | ⟨c, rest, rfl, hc⟩ | ⟨word, rest, t, rfl, ht⟩ | ⟨reason, hstop⟩
  · exact ⟨[], [], rfl, .done, .ended⟩
  · rw [List.length_cons] at hlen
    obtain ⟨front, rest, rfl, hreads, hhalts⟩ := ih _ (by omega) rest (start + 1) rfl
    rw [ofListFrom_space hc]
    refine ⟨c :: front, rest, rfl, .space hc hreads, ?_⟩
    rwa [List.length_cons, Nat.add_comm front.length, ← Nat.add_assoc]
  · have hpos := List.length_pos_iff.mpr ht.ne_nil
    rw [List.length_append] at hlen
    obtain ⟨front, rest, rfl, hreads, hhalts⟩ := ih _ (by omega) rest (start + word.length) rfl
    rw [ofListFrom_token ht]
    refine ⟨word ++ front, rest, (List.append_assoc ..).symm, .token ht hreads, ?_⟩
    rwa [List.length_append, ← Nat.add_assoc]
  · rw [hstop.ofListFrom_eq]
    exact ⟨[], cs, rfl, .done, .fault hstop⟩

/-- **What is read of a text**: its front as tokens, up to where reading ends. -/
theorem ofListFrom_eq_iff : Scan.ofListFrom 0 start cs = scan ↔ ∃ front rest, cs = front ++ rest ∧
    Reads rest start front scan.tokens ∧ Halts rest (start + front.length) scan.fault := by
  constructor
  · rintro rfl
    exact exists_reads cs start
  · rintro ⟨front, rest, rfl, hreads, hhalts⟩
    rw [hreads.ofListFrom_eq, hhalts.ofListFrom_eq, List.append_nil]

end

/-! ### Tokens at their positions -/

/-- The text of the token, from the characters it is written with. -/
def Token.written : Token → List Char → List Char
  | cell _, cs | name _, cs => cs.map Char.toUpper
  | _, cs => cs

namespace Placed

/-- The position after the token. -/
def stop (p : Placed) : Nat :=
  p.start + p.token.text.length

/-- The characters of the text where the token is. -/
def slice (body : List Char) (p : Placed) : List Char :=
  (body.drop p.start).take p.token.text.length

end Placed

/-- **The tokens tile the text** from position `lo` to position `hi`. -/
structure Tiles (body : List Char) (lo hi : Nat) (placed : List Placed) : Prop where
  /-- No token starts before the one to its left has ended. -/
  apart : placed.Pairwise fun p q => p.stop ≤ q.start
  inside : ∀ p ∈ placed, lo ≤ p.start ∧ p.start < p.stop ∧ p.stop ≤ hi
  texts : ∀ p ∈ placed, p.token.text.toList = p.token.written (p.slice body)
  picked : ∀ p ∈ placed, Picks (p.slice body) (body.drop p.stop) p.token
  between : ∀ i c, lo ≤ i → i < hi → body[i]? = some c →
    (∀ p ∈ placed, ¬ (p.start ≤ i ∧ i < p.stop)) → isSpace c = true

section

variable {body before cs after word rest : List Char} {c : Char} {lo hi start : Nat} {t : Token}
  {p : Placed} {placed : List Placed}

theorem text_of_signs : ∀ x ∈ Token.signs, x.2.text.toList = x.2.written x.1 := by decide

/-- A token says what it is written with. -/
theorem Token.Picks.text_eq (h : Picks word rest t) : t.text.toList = t.written word := by
  cases h with
  | sign h => exact text_of_signs _ h
  | _ => exact String.toList_ofList

theorem Token.Picks.length_eq (h : Picks word rest t) : t.text.length = word.length := by
  rw [← String.length_toList, h.text_eq]
  cases t <;> simp [Token.written]

namespace Tiles

/-- A blank before the tokens. -/
theorem widen (h : Tiles body (lo + 1) hi placed) (hc : body[lo]? = some c)
    (hspace : isSpace c = true) : Tiles body lo hi placed where
  apart := h.apart
  inside p hp := ⟨Nat.le_of_succ_le (h.inside p hp).1, (h.inside p hp).2⟩
  texts := h.texts
  picked := h.picked
  between i d hlo hhi hd hout := by
    rcases Nat.eq_or_lt_of_le hlo with rfl | hlo
    · rwa [← Option.some.inj (hc.symm.trans hd)]
    · exact h.between i d hlo hhi hd hout

/-- No token at the start. -/
theorem narrow (h : Tiles body lo hi placed) (hno : ∀ p ∈ placed, p.start ≠ lo) :
    Tiles body (lo + 1) hi placed where
  apart := h.apart
  inside p hp :=
    ⟨Nat.lt_of_le_of_ne (h.inside p hp).1 (hno p hp).symm, (h.inside p hp).2⟩
  texts := h.texts
  picked := h.picked
  between i d hlo := h.between i d (Nat.le_of_succ_le hlo)

/-- A token before the others. -/
theorem cons (h : Tiles body p.stop hi placed) (hhi : p.stop ≤ hi)
    (ht : Picks (p.slice body) (body.drop p.stop) p.token) :
    Tiles body p.start hi (p :: placed) where
  apart := List.pairwise_cons.mpr ⟨fun q hq => (h.inside q hq).1, h.apart⟩
  inside := by
    have hpos : 0 < p.token.text.length := ht.length_eq ▸ List.length_pos_iff.mpr ht.ne_nil
    have hlt : p.start < p.stop := Nat.lt_add_of_pos_right hpos
    refine List.forall_mem_cons.mpr ⟨⟨le_rfl, hlt, hhi⟩, fun q hq => ?_⟩
    have hq := h.inside q hq
    exact ⟨by omega, hq.2⟩
  texts := List.forall_mem_cons.mpr ⟨ht.text_eq, h.texts⟩
  picked := List.forall_mem_cons.mpr ⟨ht, h.picked⟩
  between i c hlo hhi hc hout := by
    obtain ⟨hp, hout⟩ := List.forall_mem_cons.mp hout
    exact h.between i c (by omega) hhi hc hout

/-- The tokens after the first. -/
theorem tail (h : Tiles body lo hi (p :: placed)) : Tiles body p.stop hi placed where
  apart := h.apart.of_cons
  inside q hq := ⟨List.rel_of_pairwise_cons h.apart hq, (h.inside q (List.mem_cons_of_mem p hq)).2⟩
  texts q hq := h.texts q (List.mem_cons_of_mem p hq)
  picked q hq := h.picked q (List.mem_cons_of_mem p hq)
  between i c hlo hhi hc hout := by
    have hp := h.inside p List.mem_cons_self
    refine h.between i c (by omega) hhi hc (List.forall_mem_cons.mpr ⟨by omega, hout⟩)

/-- A token at the start is the first. -/
theorem start_ne (h : Tiles body lo hi (p :: placed)) (hp : p.start ≠ lo) :
    ∀ q ∈ p :: placed, q.start ≠ lo := by
  refine List.forall_mem_cons.mpr ⟨hp, fun q hq => ?_⟩
  have hp := h.inside p List.mem_cons_self
  have hq := List.rel_of_pairwise_cons h.apart hq
  omega

end Tiles

/-- A token that starts at the end of `before`. -/
theorem slice_append (hstart : p.start = before.length) (hlen : p.token.text.length = word.length) :
    p.slice (before ++ (word ++ rest)) = word ∧
      (before ++ (word ++ rest)).drop p.stop = rest := by
  simp [Placed.slice, Placed.stop, hstart, hlen, ← List.drop_drop]

theorem Reads.tiles (h : Reads after start cs placed) (hstart : before.length = start) :
    Tiles (before ++ (cs ++ after)) start (start + cs.length) placed := by
  induction h generalizing before with
  | done =>
    exact ⟨.nil, by simp, by simp, by simp, fun i c hlo hhi => absurd hlo (by simpa using hhi)⟩
  | @space start c cs placed hc h ih =>
    have hrest := @ih (before ++ [c]) (by simp [hstart])
    rw [List.append_assoc, List.singleton_append, Nat.add_assoc, Nat.add_comm 1] at hrest
    exact hrest.widen (by simp [← hstart]) hc
  | @token start word cs t placed ht h ih =>
    have hrest := @ih (before ++ word) (by simp [hstart])
    have hlen := ht.length_eq
    obtain ⟨hslice, hdrop⟩ := @slice_append before word (cs ++ after) ⟨t, start⟩ hstart.symm hlen
    have hstop : (⟨t, start⟩ : Placed).stop = start + word.length := congrArg (start + ·) hlen
    rw [List.append_assoc, Nat.add_assoc, ← List.length_append, ← hstop] at hrest
    rw [List.append_assoc]
    refine hrest.cons (by rw [hstop, List.length_append]; omega) ?_
    rwa [hslice, hdrop]

theorem Tiles.reads_space (h : Tiles (before ++ (c :: cs ++ after)) before.length
      (before.length + (c :: cs).length) placed)
    (hno : ∀ p ∈ placed, p.start ≠ before.length) :
    isSpace c = true ∧ Tiles (before ++ [c] ++ (cs ++ after)) (before ++ [c]).length
      ((before ++ [c]).length + cs.length) placed := by
  have hnarrow := h.narrow hno
  refine ⟨h.between before.length c le_rfl (by simp) (by simp) fun p hp hin => ?_, ?_⟩
  · have hlo := (hnarrow.inside p hp).1
    omega
  · simpa [Nat.add_assoc, Nat.add_comm 1] using hnarrow

theorem Tiles.reads_token (h : Tiles (before ++ (cs ++ after)) before.length
      (before.length + cs.length) (p :: placed)) (hp : p.start = before.length) :
    ∃ word rest, cs = word ++ rest ∧ Picks word (rest ++ after) p.token ∧
      Tiles (before ++ word ++ (rest ++ after)) (before ++ word).length
        ((before ++ word).length + rest.length) placed := by
  obtain ⟨-, -, hhi⟩ := h.inside p List.mem_cons_self
  obtain ⟨word, rest, rfl, hword⟩ : ∃ word rest, cs = word ++ rest ∧
      p.token.text.length = word.length := by
    rw [Placed.stop, hp] at hhi
    exact ⟨_, _, (List.take_append_drop p.token.text.length cs).symm, by simp; omega⟩
  have hpicked := h.picked p List.mem_cons_self
  rw [List.append_assoc, (slice_append hp hword).1, (slice_append hp hword).2] at hpicked
  refine ⟨word, rest, rfl, hpicked, ?_⟩
  have hstop : p.stop = (before ++ word).length := by
    rw [Placed.stop, hp, hword, List.length_append]
  have htail := h.tail
  rw [hstop] at htail
  simpa [Nat.add_assoc] using htail

/-- The induction is on the length of the part that is tiled, a blank or a token at a time. -/
theorem Tiles.reads (h : Tiles (before ++ (cs ++ after)) before.length
    (before.length + cs.length) placed) : Reads after before.length cs placed := by
  induction hlen : cs.length using Nat.strong_induction_on generalizing before cs placed with
    | _ n ih
  have hspace {c : Char} {rest : List Char} (hcs : cs = c :: rest)
      (hno : ∀ p ∈ placed, p.start ≠ before.length) : Reads after before.length cs placed := by
    subst hcs
    obtain ⟨hc, hrest⟩ := h.reads_space hno
    have hreads := ih rest.length (by rw [← hlen]; exact Nat.lt_succ_self _) hrest rfl
    rw [List.length_append] at hreads
    exact .space hc hreads
  cases placed with
  | nil =>
    cases cs with
    | nil => exact .done
    | cons c rest => exact hspace rfl (by simp)
  | cons p placed =>
    by_cases hp : p.start = before.length
    · obtain ⟨word, rest, rfl, ht, hrest⟩ := h.reads_token hp
      have hpos := List.length_pos_iff.mpr ht.ne_nil
      have hreads := ih rest.length (by rw [← hlen, List.length_append]; omega) hrest rfl
      rw [List.length_append] at hreads
      obtain ⟨t, start⟩ := p
      obtain rfl : start = before.length := hp
      exact .token ht hreads
    · have hin := h.inside p List.mem_cons_self
      obtain ⟨c, rest, hcs⟩ : ∃ c rest, cs = c :: rest := by
        refine List.exists_cons_of_ne_nil ?_
        rintro rfl
        rw [List.length_nil] at hin
        omega
      exact hspace hcs (h.start_ne hp)

/-- **To read a text is to tile it.** -/
theorem reads_iff_tiles (before cs after : List Char) (placed : List Placed) :
    Reads after before.length cs placed ↔
      Tiles (before ++ (cs ++ after)) before.length (before.length + cs.length) placed :=
  ⟨fun h => h.tiles rfl, Tiles.reads⟩

end

/-! ### Whole texts -/

theorem ofBody_eq_iff {body : String} {scan : Scan} : Scan.ofBody body = scan ↔
    ∃ front rest, body.toList = front ++ rest ∧ Tiles body.toList 0 front.length scan.tokens ∧
      Halts rest front.length scan.fault := by
  rw [Scan.ofBody, ofListFrom_eq_iff]
  refine exists_congr fun front => exists_congr fun rest => and_congr_right fun hbody => ?_
  have htiles : Reads rest 0 front scan.tokens ↔ Tiles body.toList 0 front.length scan.tokens := by
    simpa [hbody] using reads_iff_tiles [] front rest scan.tokens
  rw [htiles, Nat.zero_add]

theorem tokenize_eq_error_iff {body : String} {fault : Fault} :
    tokenize body = .error fault ↔ ∃ placed, Scan.ofBody body = ⟨placed, some fault⟩ := by
  unfold tokenize
  obtain ⟨tokens, fault'⟩ := Scan.ofBody body
  cases fault' <;> simp

/-- A text has the tokens that tile all of it. -/
theorem tokenize_ok_iff_tiles {body : String} {placed : List Placed} :
    tokenize body = .ok placed ↔ Tiles body.toList 0 body.length placed := by
  rw [tokenize_eq_ok]
  constructor
  · rintro ⟨hfault, rfl⟩
    obtain ⟨front, rest, hbody, htiles, hhalts⟩ := ofBody_eq_iff.mp (Eq.refl (Scan.ofBody body))
    rw [hfault] at hhalts
    obtain ⟨⟩ := hhalts
    obtain rfl : body.toList = front := hbody.trans (List.append_nil front)
    rwa [String.length_toList] at htiles
  · intro htiles
    have hscan : Scan.ofBody body = ⟨placed, none⟩ := ofBody_eq_iff.mpr
      ⟨body.toList, [], (List.append_nil _).symm, by rwa [String.length_toList], .ended⟩
    rw [hscan]
    exact ⟨rfl, rfl⟩

/-- A text is refused where no token is at the front, the text before being tiled. -/
theorem tokenize_error_iff_tiles {body : String} {fault : Fault} :
    tokenize body = .error fault ↔ ∃ p reason placed, fault = .badSyntax reason p ∧
      p ≤ body.length ∧ Tiles body.toList 0 p placed ∧ Stops (body.toList.drop p) reason := by
  rw [tokenize_eq_error_iff]
  constructor
  · rintro ⟨placed, hscan⟩
    obtain ⟨front, rest, hbody, htiles, ⟨⟩ | hstop⟩ := ofBody_eq_iff.mp hscan
    refine ⟨front.length, _, placed, rfl, ?_, htiles, ?_⟩
    · rw [← String.length_toList, hbody, List.length_append]
      exact Nat.le_add_right ..
    · rwa [hbody, List.drop_left]
  · rintro ⟨p, reason, placed, rfl, hp, htiles, hstop⟩
    refine ⟨placed, ofBody_eq_iff.mpr ⟨body.toList.take p, body.toList.drop p,
      (List.take_append_drop ..).symm, ?_⟩⟩
    rw [← String.length_toList] at hp
    rw [List.length_take, Nat.min_eq_left hp]
    exact ⟨htiles, .fault hstop⟩

/-- **How a text splits into tokens**: it has the tokens that tile all of it. If there are none, it
is refused at the place up to which tokens tile it and at which none is at the front: for a
character that starts none, or for digits with more than one point. -/
theorem tokenize_iff_tiles (body : String) :
    (∀ placed, tokenize body = .ok placed ↔ Tiles body.toList 0 body.length placed) ∧
      ∀ fault, tokenize body = .error fault ↔ ∃ p reason placed, fault = .badSyntax reason p ∧
        p ≤ body.length ∧ Tiles body.toList 0 p placed ∧ Stops (body.toList.drop p) reason :=
  ⟨fun _ => tokenize_ok_iff_tiles, fun _ => tokenize_error_iff_tiles⟩

example : tokenize "a1B12.5>==" = .ok [⟨.cell "A1", 0⟩, ⟨.cell "B12", 2⟩, ⟨.number ".5", 5⟩,
    ⟨.op .ge, 7⟩, ⟨.op .eq, 9⟩] := by decide

end Spreadsheet
