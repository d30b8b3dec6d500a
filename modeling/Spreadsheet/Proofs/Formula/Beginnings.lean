import Spreadsheet.Proofs.Formula.Acceptance

/-! # Beginnings of formulas

Tokens begin a formula if the grammar derives a tree from them and tokens that can be put after them
(`Begins`). What the reader has taken always begins one (`State.Spelt.begins`): an operand and the
closing brackets can follow. A token that it refuses, and an end that it refuses, are not to be had
by the grammar (`not_begins_of_refused`, `not_derives_of_refused`), so it refuses none too early.

The reader stops at an integer of too many digits, which the grammar does not. So in the tokens that
the grammar derives such integers are replaced by others (`Token.shorten`) before they are read. -/

namespace Spreadsheet

open Formula (Derives Denotes)

/-! ### Long integers replaced -/

/-- Another numeral for an integer of too many digits. -/
def Numeral.shorten (text : String) : String :=
  if '.' ∉ text.toList ∧ numeralLimit < text.toList.length then "0" else text

/-- The token, with another numeral if it is an integer of too many digits. -/
def Token.shorten : Token → Token
  | number text => number (Numeral.shorten text)
  | t => t

namespace Formula

/-- The operand, with another numeral if it is an integer of too many digits. -/
def Atom.shorten : Atom → Atom
  | number text => number (Numeral.shorten text)
  | a => a

/-- What has been read last, with another numeral for an integer of too many digits. -/
def Mode.shorten : Mode → Mode
  | after a => after a.shorten
  | m => m

/-- The state, with another numeral if an integer of too many digits has been read last. -/
def State.shorten (s : State) : State :=
  ⟨s.brackets, s.waiting, s.mode.shorten⟩

section

variable {s t : State} {ts us : List Token} {tok : Token} {text : String} {e : Expr}
  {level : Level}

theorem integersFit_shorten (ts : List Token) : IntegersFit (ts.map Token.shorten) := by
  intro digits hd hpoint
  obtain ⟨t, -, ht⟩ := List.mem_map.mp hd
  cases t with
  | number text =>
    obtain rfl : Numeral.shorten text = digits := Token.number.inj ht
    unfold Numeral.shorten at hpoint ⊢
    split_ifs with h
    · decide
    · rw [if_neg h] at hpoint
      exact Nat.le_of_not_lt fun hlt => h ⟨hpoint, hlt⟩
  | _ => cases ht

theorem exists_denotes_shorten {n : Number} (h : Denotes text n) :
    ∃ m, Denotes (Numeral.shorten text) m := by
  unfold Numeral.shorten
  split_ifs
  · exact ⟨_, .integer (by decide)⟩
  · exact ⟨n, h⟩

theorem map_shorten_separated : ∀ parts : List (List Token),
    (separated parts).map Token.shorten = separated (parts.map (List.map Token.shorten))
  | [] => rfl
  | [ts] => by simp [separated]
  | ts :: us :: parts => by
    rw [separated_cons, List.map_append, List.map_cons, map_shorten_separated (us :: parts)]
    exact (separated_cons ..).symm

/-- Phrases with trees, from phrases that each have one. -/
theorem exists_trees : ∀ parts : List (List Token),
    (∀ ts ∈ parts, ∃ e, Derives .comparison ts e) →
      ∃ args : List (List Token × Expr), args.map Prod.fst = parts ∧
        ∀ x ∈ args, Derives .comparison x.1 x.2
  | [], _ => ⟨[], rfl, by simp⟩
  | ts :: parts, h => by
    obtain ⟨⟨e, he⟩, h⟩ := List.forall_mem_cons.mp h
    obtain ⟨args, rfl, hargs⟩ := exists_trees parts h
    exact ⟨(ts, e) :: args, rfl, List.forall_mem_cons.mpr ⟨he, hargs⟩⟩

/-- The grammar derives trees whatever the numerals. -/
theorem Derives.shorten (h : Derives level ts e) : ∃ d, Derives level (ts.map Token.shorten) d := by
  induction h with
  | tighter hn _ ih =>
    obtain ⟨d, hd⟩ := ih
    exact ⟨d, .tighter hn hd⟩
  | binary hn hop _ _ ihl ihr =>
    obtain ⟨l, hl⟩ := ihl
    obtain ⟨r, hr⟩ := ihr
    rw [List.map_append]
    exact ⟨_, .binary hn hop hl hr⟩
  | neg _ ih =>
    obtain ⟨d, hd⟩ := ih
    exact ⟨_, .neg hd⟩
  | number h =>
    obtain ⟨m, hm⟩ := exists_denotes_shorten h
    exact ⟨_, .number hm⟩
  | cell label => exact ⟨_, .cell label⟩
  | range start stop => exact ⟨_, .range start stop⟩
  | name letters => exact ⟨_, .name letters⟩
  | @call letters args _ ih =>
    obtain ⟨args', hfst, hargs⟩ :=
      exists_trees ((args.map Prod.fst).map (List.map Token.shorten)) (by
        intro ts hts
        obtain ⟨_, hus, rfl⟩ := List.mem_map.mp hts
        obtain ⟨x, hx, rfl⟩ := List.mem_map.mp hus
        exact ih x hx)
    have hcall := @Derives.call letters _ hargs
    rw [hfst, ← map_shorten_separated] at hcall
    exact ⟨_, by simpa [Token.shorten] using hcall⟩
  | group _ ih =>
    obtain ⟨d, hd⟩ := ih
    exact ⟨d, by simpa [Token.shorten] using Derives.group hd⟩

/-! ### Reading with other numerals -/

/-- An operand that has a tree keeps its numeral. -/
theorem shorten_of_toExpr {a : Atom} (h : a.toExpr = .ok e) : a.shorten = a := by
  cases a with
  | number text =>
    refine congrArg Atom.number (if_neg ?_)
    rintro ⟨hpoint, hlong⟩
    simp [Atom.toExpr, numberOf, hpoint, Nat.not_le_of_lt hlong] at h
  | _ => rfl

theorem toExpr_refused {a : Atom} {r : Refusal} (h : a.toExpr = .error r) :
    ∃ digits, r = .numeralTooLong digits := by
  cases a with
  | number text =>
    simp only [Atom.toExpr, numberOf] at h
    split_ifs at h
    · cases h
    · cases h
    · exact ⟨_, (Except.error.inj h).symm⟩
  | _ => cases h

theorem map_shorten_close (s : State) (e : Expr) : (s.close e).map State.shorten = s.close e := by
  unfold State.close
  dsimp only
  split <;> rfl

theorem map_shorten_separate (s : State) (e : Expr) :
    (s.separate e).map State.shorten = s.separate e := by
  unfold State.separate
  dsimp only
  split <;> rfl

theorem stepBefore_shorten (bs : List Bracket) (w : Waiting) (opened : Bool) (tok : Token) :
    State.step ⟨bs, w, .before opened⟩ tok.shorten =
      (State.step ⟨bs, w, .before opened⟩ tok).map State.shorten := by
  cases tok with
  | op o => cases o <;> rfl
  | rightParen =>
    simp only [State.step, State.stepBefore, Token.shorten]
    split <;> rfl
  | _ => rfl

theorem stepAfter_shorten (bs : List Bracket) (w : Waiting) (a : Atom) (tok : Token)
    (h : ∀ digits, State.step ⟨bs, w, .after a⟩ tok ≠ .error (.numeralTooLong digits)) :
    State.step ⟨bs, w, .after a.shorten⟩ tok.shorten =
      (State.step ⟨bs, w, .after a⟩ tok).map State.shorten := by
  have htree {f : Expr → Except Refusal State}
      (hf : State.step ⟨bs, w, .after a⟩ tok = do f (← a.toExpr))
      (hshort : State.step ⟨bs, w, .after a⟩ tok.shorten = do f (← a.toExpr))
      (hmap : ∀ e, (f e).map State.shorten = f e) :
      State.step ⟨bs, w, .after a.shorten⟩ tok.shorten =
        (State.step ⟨bs, w, .after a⟩ tok).map State.shorten := by
    cases ha : a.toExpr with
    | error r =>
      obtain ⟨digits, rfl⟩ := toExpr_refused ha
      exact absurd (by rw [hf, ha]; rfl) (h digits)
    | ok e =>
      rw [shorten_of_toExpr ha, hshort, hf, ha]
      exact (hmap e).symm
  cases tok with
  | op o => exact htree rfl rfl fun _ => rfl
  | rightParen => exact htree rfl rfl (map_shorten_close ⟨bs, w, .after a⟩)
  | comma => exact htree rfl rfl (map_shorten_separate ⟨bs, w, .after a⟩)
  | leftParen | colon => cases a <;> rfl
  | number | name | cell => rfl

/-- **A token is taken or refused whatever the numerals**, if no numeral is too long for it. -/
theorem step_shorten (h : ∀ digits, s.step tok ≠ .error (.numeralTooLong digits)) :
    s.shorten.step tok.shorten = (s.step tok).map State.shorten := by
  obtain ⟨bs, w, mode⟩ := s
  cases mode with
  | before opened => exact stepBefore_shorten bs w opened tok
  | after a => exact stepAfter_shorten bs w a tok h
  | corner start => cases tok <;> rfl

theorem foldlM_shorten : ∀ {ts : List Token} {s : State}, ts.foldlM State.step s = .ok t →
    (ts.map Token.shorten).foldlM State.step s.shorten = .ok t.shorten
  | [], _, h => congrArg (Except.map State.shorten) h
  | tok :: ts, s, h => by
    rw [List.foldlM_cons] at h
    cases hs : s.step tok with
    | error r => rw [hs] at h; cases h
    | ok s' =>
      rw [hs] at h
      have hstep := @step_shorten s tok fun digits => by rw [hs]; nofun
      rw [hs] at hstep
      rw [List.map_cons, List.foldlM_cons, hstep]
      exact foldlM_shorten h

theorem finish_shorten (h : s.finish = .error .unexpected) :
    s.shorten.finish = .error .unexpected := by
  obtain ⟨bs, w, mode⟩ := s
  cases mode with
  | before opened => rfl
  | after a =>
    cases ha : a.toExpr with
    | error r =>
      obtain ⟨digits, rfl⟩ := toExpr_refused ha
      simp only [State.finish, ha] at h
      cases h
    | ok e =>
      have hstate : State.shorten ⟨bs, w, .after a⟩ = ⟨bs, w, .after a⟩ := by
        rw [State.shorten, Mode.shorten, shorten_of_toExpr ha]
      rwa [hstate]
  | corner start => rfl

/-! ### Beginnings -/

/-- **The tokens begin a formula**: with some tokens after them the grammar derives a tree. -/
def Begins (ts : List Token) : Prop :=
  ∃ us e, Derives .comparison (ts ++ us) e

theorem Begins.of_append (us : List Token) (h : Begins (ts ++ us)) : Begins ts := by
  obtain ⟨vs, e, he⟩ := h
  exact ⟨us ++ vs, e, by rwa [← List.append_assoc]⟩

/-- An operand and what waits for it begin a formula: the open brackets can be closed, the
innermost one first. -/
theorem begins_of_stack : ∀ {stack : List Bracket} {bs ws ms : List Token} {w : Waiting} {e : Expr},
    StackSpelt stack bs → w.Spelt ws → Derives .primary ms e → Begins (bs ++ (ws ++ ms))
  | [], _, ws, ms, w, e, hb, hw, hm => by
    obtain rfl := hb
    exact ⟨[], _, by simpa using hw.comparison' hm⟩
  | .group outer :: below, _, ws, ms, w, e, hb, hw, hm => by
    obtain ⟨us, _, rfl, hbelow, outs, rfl, houter⟩ := hb
    refine Begins.of_append [.rightParen] ?_
    simpa using begins_of_stack hbelow houter (.group (hw.comparison' hm))
  | .call outer name args :: below, _, ws, ms, w, e, hb, hw, hm => by
    obtain ⟨us, _, rfl, hbelow, outs, parts, rfl, houter, -, hparts⟩ := hb
    refine Begins.of_append [.rightParen] ?_
    simpa using begins_of_stack hbelow houter (derives_call hparts (hw.comparison' hm))

theorem derives_zero : Derives .primary [.number "0"] (.literal (.int 0)) :=
  .number (.integer (by decide))

theorem Atom.Spelt.exists_derives {a : Atom} (h : a.Spelt ts) : ∃ e, Derives .primary ts e := by
  cases a with
  | number text =>
    obtain ⟨rfl, hr⟩ := h
    by_cases hpoint : '.' ∈ text.toList
    · obtain ⟨x, hx⟩ := hr hpoint
      exact ⟨_, .number (.float hpoint hx)⟩
    · exact ⟨_, .number (.integer hpoint)⟩
  | name letters =>
    obtain rfl : ts = _ := h
    exact ⟨_, .name letters⟩
  | cell label =>
    obtain rfl : ts = _ := h
    exact ⟨_, .cell label⟩
  | whole e => exact ⟨e, h⟩

/-- **What has been read begins a formula.** -/
theorem State.Spelt.begins (hs : s.Spelt ts) : Begins ts := by
  obtain ⟨bs, ws, ms, rfl, hb, hw, hm⟩ := hs.tokens
  cases hmode : s.mode with
  | before opened =>
    rw [hmode] at hm
    obtain rfl : ms = [] := hm
    refine Begins.of_append [.number "0"] ?_
    simpa using begins_of_stack hb hw derives_zero
  | after a =>
    rw [hmode] at hm
    obtain ⟨e, he⟩ := hm.exists_derives
    exact begins_of_stack hb hw he
  | corner start =>
    rw [hmode] at hm
    obtain rfl : ms = _ := hm
    refine Begins.of_append [.cell "A1"] ?_
    simpa using begins_of_stack hb hw (.range start "A1")

/-- **Tokens that are taken begin a formula.** -/
theorem begins_of_foldlM (hr : ∀ t ∈ ts, Readable t)
    (hfold : ts.foldlM State.step State.start = .ok s) : Begins ts :=
  (foldlM_spelt start_spelt hr hfold).begins

/-- **No formula begins with a token that is refused** after those before it. -/
theorem not_begins_of_refused (hfold : ts.foldlM State.step State.start = .ok s)
    (h : s.step tok = .error .unexpected) : ¬ Begins (ts ++ [tok]) := by
  rintro ⟨us, e, he⟩
  obtain ⟨d, hd⟩ := he.shorten
  obtain ⟨t, ht, -⟩ := hd.foldlM (integersFit_shorten _)
  have hstep := @step_shorten s tok fun digits => by rw [h]; nofun
  rw [List.append_assoc, List.map_append] at ht
  have hrest := (foldlM_append (foldlM_shorten hfold)).symm.trans ht
  rw [List.singleton_append, List.map_cons, List.foldlM_cons, hstep, h] at hrest
  cases hrest

/-- **Tokens after which the end is refused are no formula.** -/
theorem not_derives_of_refused (hfold : ts.foldlM State.step State.start = .ok s)
    (h : s.finish = .error .unexpected) : ¬ ∃ e, Derives .comparison ts e := by
  rintro ⟨e, he⟩
  obtain ⟨d, hd⟩ := he.shorten
  obtain ⟨t, ht, hfinish⟩ := hd.foldlM (integersFit_shorten _)
  obtain rfl := Except.ok.inj ((foldlM_shorten hfold).symm.trans ht)
  cases (finish_shorten h).symm.trans hfinish

/-! ### Numerals that are none -/

theorem mem_separated : ∀ {parts : List (List Token)}, tok ∈ separated parts →
    tok = .comma ∨ ∃ ts ∈ parts, tok ∈ ts
  | [], h => by simp [separated] at h
  | [ts], h => Or.inr ⟨ts, List.mem_cons_self, by simpa [separated] using h⟩
  | ts :: us :: parts, h => by
    rw [separated_cons, List.mem_append, List.mem_cons] at h
    rcases h with h | rfl | h
    · exact Or.inr ⟨ts, List.mem_cons_self, h⟩
    · exact Or.inl rfl
    · rcases mem_separated h with h | ⟨vs, hvs, h⟩
      · exact Or.inl h
      · exact Or.inr ⟨vs, List.mem_cons_of_mem ts hvs, h⟩

/-- Every numeral of a phrase denotes a number. -/
theorem Derives.denotes (h : Derives level ts e) (ht : .number text ∈ ts) :
    ∃ n, Denotes text n := by
  induction h with
  | tighter _ _ ih => exact ih ht
  | binary _ _ _ _ ihl ihr =>
    rcases List.mem_append.mp ht with ht | ht
    · exact ihl ht
    · exact ihr (by simpa using ht)
  | neg _ ih => exact ih (by simpa using ht)
  | number h =>
    obtain rfl : text = _ := by simpa using ht
    exact ⟨_, h⟩
  | cell | range | name => simp at ht
  | call _ ih =>
    obtain ⟨us, hus, ht⟩ := (mem_separated (by simpa using ht)).resolve_left (by simp)
    obtain ⟨x, hx, rfl⟩ := List.mem_map.mp hus
    exact ih x hx ht
  | group _ ih => exact ih (by simpa using ht)

theorem not_begins_of_not_denotes (h : ¬ ∃ n, Denotes text n) :
    ¬ Begins (ts ++ [.number text]) := by
  rintro ⟨us, e, he⟩
  exact h (he.denotes (by simp))

/-- The parts of a decimal text. -/
theorem takeMantissa_eq_some {cs whole fraction rest : List Char}
    (h : Decimal.takeMantissa cs = some (whole, fraction, rest)) :
    ∃ point, cs = whole ++ (point ++ (fraction ++ rest)) ∧ point.count '.' ≤ 1 ∧
      (∀ c ∈ whole, Decimal.isAsciiDigit c = true) ∧
      ∀ c ∈ fraction, Decimal.isAsciiDigit c = true := by
  unfold Decimal.takeMantissa at h
  split at h
  · next tail hdrop =>
    dsimp only at h
    split_ifs at h
    simp only [Option.some.injEq, Prod.mk.injEq] at h
    obtain ⟨rfl, rfl, rfl⟩ := h
    refine ⟨['.'], ?_, by decide, fun c hc => List.mem_takeWhile_imp hc,
      fun c hc => List.mem_takeWhile_imp hc⟩
    rw [List.takeWhile_append_dropWhile, List.singleton_append, ← hdrop,
      List.takeWhile_append_dropWhile]
  · dsimp only at h
    split_ifs at h
    simp only [Option.some.injEq, Prod.mk.injEq] at h
    obtain ⟨rfl, rfl, rfl⟩ := h
    exact ⟨[], List.takeWhile_append_dropWhile.symm, by simp, fun c hc => List.mem_takeWhile_imp hc,
      by simp⟩

theorem takeSign_of_numeric {run : List Char} (hnum : ∀ c ∈ run, Token.isNumeric c = true) :
    Decimal.takeSign run = (false, run) := by
  unfold Decimal.takeSign
  split
  · exact absurd (hnum '-' List.mem_cons_self) (by decide)
  · exact absurd (hnum '+' List.mem_cons_self) (by decide)
  · rfl

theorem eq_nil_of_exponent {rest : List Char} {n : Int}
    (hnum : ∀ c ∈ rest, Token.isNumeric c = true) (h : Decimal.exponent? rest = some n) :
    rest = [] := by
  cases rest with
  | nil => rfl
  | cons c rest =>
    have hc := hnum c List.mem_cons_self
    unfold Decimal.exponent? at h
    dsimp only at h
    split at h
    · next hexponent => rcases hexponent.1 with rfl | rfl <;> cases hc
    · cases h

/-- Digits and points read as a decimal only with at most one point among them. -/
theorem count_le_of_read {run : List Char} {x : Binary64}
    (hnum : ∀ c ∈ run, Token.isNumeric c = true) (h : Decimal.read? run = some x) :
    run.count '.' ≤ 1 := by
  unfold Decimal.read? at h
  rw [takeSign_of_numeric hnum] at h
  simp only [Option.bind_eq_bind, Option.bind_eq_some_iff] at h
  obtain ⟨⟨whole, fraction, rest⟩, hmantissa, n, hexponent, -⟩ := h
  obtain ⟨point, rfl, hpoint, hwhole, hfraction⟩ := takeMantissa_eq_some hmantissa
  obtain rfl := eq_nil_of_exponent (fun c hc => hnum c (by simp [hc])) hexponent
  have hno {cs : List Char} (hcs : ∀ c ∈ cs, Decimal.isAsciiDigit c = true) : cs.count '.' = 0 :=
    List.count_eq_zero.mpr fun hc => absurd (hcs '.' hc) (by decide)
  simpa [List.count_append, hno hwhole, hno hfraction] using hpoint

/-- **A numeral of more than one point is none.** -/
theorem not_denotes_of_count {run : List Char} (hnum : ∀ c ∈ run, Token.isNumeric c = true)
    (hcount : 1 < run.count '.') : ¬ ∃ n, Denotes (String.ofList run) n := by
  rintro ⟨_, hpoint | ⟨-, hx⟩⟩
  · rw [String.toList_ofList] at hpoint
    rw [List.count_eq_zero.mpr hpoint] at hcount
    omega
  · rw [String.toList_ofList] at hx
    exact absurd (count_le_of_read hnum hx) (Nat.not_le_of_lt hcount)

end

end Formula

end Spreadsheet
