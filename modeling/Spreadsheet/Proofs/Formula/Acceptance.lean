import Spreadsheet.Proofs.Formula.Grammar
import Spreadsheet.Proofs.Formula.Parsed

/-! # Formulas and their grammar

The reader of formulas takes one token after the other and keeps what it has read as brackets and
operands that wait. What it keeps spells the tokens read (`State.Spelt`), so a tree that it makes is
derived by the grammar (`derives_of_finish`). In the other direction a derived phrase, read where an
operand has to follow, leaves an operand that completes its tree (`Derives.leaves`). So the texts
with a tree are those that the grammar derives, each has one tree, and all others are refused
(`ofText_iff_grammatical`).

* `Waits`, `Waiting.Spelt`: the tokens of operands that wait for their right neighbour.
* `step_spelt`: one token.
* `Completes`: what a phrase of a level leaves to be completed. -/

namespace Spreadsheet.Formula

/-! ### What has been read spells tokens -/

/-- The tokens of an operand of a level that waits for its right neighbour, and of the operator
between them. -/
def Waits (level : Level) (ts : List Token) : Option (Expr × Operator) → Prop
  | none => ts = []
  | some (left, op) => op ∈ level.operators ∧ ∃ us, ts = us ++ [.op op] ∧ Derives level us left

/-- The tokens of all that waits at one level of brackets. -/
def Waiting.Spelt (ts : List Token) (w : Waiting) : Prop :=
  ∃ cs ss ps, ts = cs ++ (ss ++ (ps ++ List.replicate w.minuses (.op .sub))) ∧
    Waits .comparison cs w.comparison ∧ Waits .sum ss w.sum ∧ Waits .product ps w.product

/-- The tokens of an operand. -/
def Atom.Spelt (ts : List Token) : Atom → Prop
  | number text => ts = [.number text] ∧ Readable (.number text)
  | name letters => ts = [.name letters]
  | cell label => ts = [.cell label]
  | whole e => Derives .primary ts e

/-- The tokens from the start of what waits outside an open bracket, up to the last comma in it. -/
def Bracket.Spelt (ts : List Token) : Bracket → Prop
  | group outer => ∃ us, ts = us ++ [.leftParen] ∧ outer.Spelt us
  | call outer name args => ∃ us, ∃ parts : List (List Token × Expr),
      ts = us ++ (.name name :: .leftParen :: parts.flatMap fun x => x.1 ++ [.comma]) ∧
        outer.Spelt us ∧ args.reverse = parts.map Prod.snd ∧ ∀ x ∈ parts, Derives .comparison x.1 x.2

/-- The tokens of all open brackets. -/
def StackSpelt : List Bracket → List Token → Prop
  | [], ts => ts = []
  | b :: below, ts => ∃ us vs, ts = us ++ vs ∧ StackSpelt below us ∧ b.Spelt vs

/-- The tokens of what has been read last. -/
def Mode.Spelt (ts : List Token) : Mode → Prop
  | before _ => ts = []
  | after a => a.Spelt ts
  | corner start => ts = [.cell start, .colon]

/-- **The state is spelt by the tokens**: those of the open brackets, of what waits, and of what has
been read last. Right after the bracket of a call nothing has been read in it. -/
structure State.Spelt (ts : List Token) (s : State) : Prop where
  tokens : ∃ bs ws ms, ts = bs ++ (ws ++ ms) ∧ StackSpelt s.brackets bs ∧ s.waiting.Spelt ws ∧
    s.mode.Spelt ms
  opened : s.mode = .before true → s.waiting = {} ∧
    ∀ outer name args below, s.brackets = .call outer name args :: below → args = []

section Waiting

variable {level next : Level} {ts us : List Token} {e : Expr} {w : Waiting} {op : Operator}

theorem spelt_empty : Waiting.Spelt [] {} := ⟨[], [], [], rfl, rfl, rfl, rfl⟩

theorem eq_nil_of_spelt_empty (h : Waiting.Spelt ts {}) : ts = [] := by
  obtain ⟨cs, ss, ps, rfl, rfl, rfl, rfl⟩ := h
  rfl

theorem Waits.join {waiting : Option (Expr × Operator)} (h : Waits level ts waiting)
    (hn : level.tighter? = some next) (he : Derives next us e) :
    Derives level (ts ++ us) (Waiting.join waiting e) := by
  cases waiting with
  | none =>
    obtain rfl : ts = [] := h
    exact .tighter hn he
  | some x =>
    obtain ⟨hop, vs, rfl, hl⟩ := h
    rw [List.append_assoc, List.singleton_append]
    exact .binary hn hop hl he

theorem derives_negate (he : Derives .unary us e) :
    ∀ n, Derives .unary (List.replicate n (.op .sub) ++ us) (Waiting.negate n e)
  | 0 => he
  | n + 1 => .neg (derives_negate he n)

theorem mem_operators (op : Operator) : (op.tier = .product → op ∈ Level.product.operators) ∧
    (op.tier = .sum → op ∈ Level.sum.operators) ∧
    (op.tier = .comparison → op ∈ Level.comparison.operators) := by
  cases op <;> decide

namespace Waiting

/-- What waits, completed by an operand. -/
theorem Spelt.completed (h : w.Spelt ts) (he : Derives .primary us e) : ∃ cs ss ps,
    ts ++ us = cs ++ (ss ++ ps) ∧ Waits .comparison cs w.comparison ∧ Waits .sum ss w.sum ∧
      Derives .product ps (w.product' e) := by
  obtain ⟨cs, ss, ps, rfl, hc, hs, hp⟩ := h
  have hproduct := hp.join rfl (derives_negate (.tighter rfl he) w.minuses)
  exact ⟨cs, ss, _, by simp only [List.append_assoc], hc, hs, hproduct⟩

theorem Spelt.comparison' (h : w.Spelt ts) (he : Derives .primary us e) :
    Derives .comparison (ts ++ us) (w.comparison' e) := by
  obtain ⟨cs, ss, ps, hts, hc, hs, hp⟩ := h.completed he
  rw [hts]
  exact hc.join rfl (hs.join rfl hp)

/-- An operator after an operand. -/
theorem Spelt.push (h : w.Spelt ts) (he : Derives .primary us e) (op : Operator) :
    (w.push e op).Spelt (ts ++ us ++ [.op op]) := by
  obtain ⟨cs, ss, ps, hts, hc, hs, hp⟩ := h.completed he
  rw [hts]
  unfold Waiting.push
  cases htier : op.tier with
  | product =>
    have hop := (mem_operators op).1 htier
    exact ⟨cs, ss, ps ++ [.op op], by simp, hc, hs, hop, ps, rfl, hp⟩
  | sum =>
    have hop := (mem_operators op).2.1 htier
    exact ⟨cs, ss ++ ps ++ [.op op], [], by simp, hc, ⟨hop, ss ++ ps, rfl, hs.join rfl hp⟩, rfl⟩
  | comparison =>
    have hop := (mem_operators op).2.2 htier
    exact ⟨cs ++ (ss ++ ps) ++ [.op op], [], [], by simp,
      ⟨hop, _, rfl, hc.join rfl (hs.join rfl hp)⟩, rfl, rfl⟩

/-- A unary minus. -/
theorem Spelt.minus (h : w.Spelt ts) :
    Spelt (ts ++ [.op .sub]) { w with minuses := w.minuses + 1 } := by
  obtain ⟨cs, ss, ps, rfl, hc, hs, hp⟩ := h
  exact ⟨cs, ss, ps, by simp [List.replicate_succ'], hc, hs, hp⟩

end Waiting

end Waiting

/-! ### Operands -/

theorem numberOf_eq_ok {numeral : String} {n : Number} (hr : Readable (.number numeral))
    (h : numberOf numeral = .ok n) : Denotes numeral n := by
  unfold numberOf at h
  dsimp only at h
  split_ifs at h with hpoint hlen
  · have hpoint : '.' ∈ numeral.toList := List.contains_iff_mem.mp hpoint
    obtain ⟨x, hx⟩ := hr hpoint
    rw [hx] at h
    obtain rfl := Except.ok.inj h
    exact .float hpoint hx
  · obtain rfl := Except.ok.inj h
    exact .integer fun hmem => hpoint (List.contains_iff_mem.mpr hmem)

theorem Atom.Spelt.derives {a : Atom} {ts : List Token} {e : Expr} (h : a.Spelt ts)
    (he : a.toExpr = .ok e) : Derives .primary ts e := by
  cases a with
  | number text =>
    obtain ⟨rfl, hr⟩ := h
    cases hn : numberOf text with
    | error r => rw [Atom.toExpr, hn] at he; cases he
    | ok n =>
      rw [Atom.toExpr, hn] at he
      obtain rfl := Except.ok.inj he
      exact .number (numberOf_eq_ok hr hn)
  | name letters =>
    obtain rfl : ts = _ := h
    obtain rfl := Except.ok.inj he
    exact .name letters
  | cell label =>
    obtain rfl : ts = _ := h
    obtain rfl := Except.ok.inj he
    exact .cell label
  | whole d =>
    obtain rfl := Except.ok.inj he
    exact h

/-! ### Calls -/

theorem separated_cons (ts us : List Token) (parts : List (List Token)) :
    separated (ts :: us :: parts) = ts ++ .comma :: separated (us :: parts) := by
  simp [separated, List.intercalate]

/-- The last part stands after all commas. -/
theorem separated_concat : ∀ (parts : List (List Token)) (last : List Token),
    separated (parts ++ [last]) = parts.flatMap (· ++ [.comma]) ++ last
  | [], last => by simp [separated]
  | [ts], last => by simp [separated]
  | ts :: us :: parts, last => by
    have ih := separated_concat (us :: parts) last
    simp only [List.cons_append] at ih ⊢
    rw [separated_cons, ih]
    simp

theorem subset_separated {ts : List Token} : ∀ {parts : List (List Token)}, ts ∈ parts →
    ts ⊆ separated parts
  | [us], h => by
    obtain rfl := List.mem_singleton.mp h
    simp [separated]
  | us :: vs :: parts, h => by
    rw [separated_cons]
    rcases List.mem_cons.mp h with rfl | h
    · exact List.subset_append_left _ _
    · exact fun t ht => List.mem_append_right _ (List.mem_cons_of_mem _ (subset_separated h ht))

/-- The tokens of a call, the last argument apart. -/
theorem derives_call {name : String} {parts : List (List Token × Expr)} {ts : List Token}
    {e : Expr} (hparts : ∀ x ∈ parts, Derives .comparison x.1 x.2) (he : Derives .comparison ts e) :
    Derives .primary
      (.name name :: .leftParen :: (parts.flatMap fun x => x.1 ++ [.comma]) ++ (ts ++ [.rightParen]))
      (.call name (parts.map Prod.snd ++ [e])) := by
  have h := @Derives.call name (parts ++ [(ts, e)]) fun x hx => by
    rcases List.mem_append.mp hx with hx | hx
    · exact hparts x hx
    · obtain rfl := List.mem_singleton.mp hx
      exact he
  rw [List.map_append, List.map_append, List.map_singleton, List.map_singleton,
    separated_concat, List.flatMap_map] at h
  simpa using h

/-! ### One token -/

section

variable {s t : State} {ts : List Token} {tok : Token}

theorem stepBefore_spelt (hs : s.Spelt ts) (hr : Readable tok) {opened : Bool}
    (hmode : s.mode = .before opened) (h : s.stepBefore opened tok = .ok t) :
    t.Spelt (ts ++ [tok]) := by
  obtain ⟨bs, ws, ms, rfl, hb, hw, hm⟩ := hs.tokens
  rw [hmode] at hm
  obtain rfl : ms = [] := hm
  have hoperand {a : Atom} (ha : a.Spelt [tok]) : (s.operand a).Spelt (bs ++ (ws ++ []) ++ [tok]) :=
    ⟨⟨bs, ws, [tok], by simp, hb, hw, ha⟩, fun h => by cases h⟩
  cases tok with
  | number text =>
    obtain rfl := Except.ok.inj h
    exact hoperand ⟨rfl, hr⟩
  | name letters =>
    obtain rfl := Except.ok.inj h
    exact hoperand rfl
  | cell label =>
    obtain rfl := Except.ok.inj h
    exact hoperand rfl
  | leftParen =>
    obtain rfl := Except.ok.inj h
    refine ⟨⟨bs ++ (ws ++ [.leftParen]), [], [], by simp, ⟨bs, _, rfl, hb, ws, rfl, hw⟩,
      spelt_empty, rfl⟩, fun h => by cases h⟩
  | op o =>
    cases o with
    | sub =>
      obtain rfl := Except.ok.inj h
      exact ⟨⟨bs, ws ++ [.op .sub], [], by simp, hb, hw.minus, rfl⟩, fun h => by cases h⟩
    | _ => cases h
  | rightParen =>
    unfold State.stepBefore at h
    dsimp only at h
    split at h
    · next outer name args below hbrackets =>
      obtain rfl := Except.ok.inj h
      obtain ⟨hempty, hargs⟩ := hs.opened hmode
      obtain rfl := hargs _ _ _ _ hbrackets
      rw [hempty] at hw
      obtain rfl := eq_nil_of_spelt_empty hw
      rw [hbrackets] at hb
      obtain ⟨us, vs, rfl, hbelow, ws, parts, rfl, houter, hparts, -⟩ := hb
      obtain rfl : parts = [] := List.map_eq_nil_iff.mp hparts.symm
      exact ⟨⟨us, ws, [.name name, .leftParen, .rightParen], by simp, hbelow, houter,
        @Derives.call name [] (by simp)⟩, fun h => by cases h⟩
    · cases h
  | comma | colon => cases h

theorem close_spelt {e : Expr} {us vs ws : List Token} (hb : StackSpelt s.brackets us)
    (hw : s.waiting.Spelt vs) (he : Derives .primary ws e) (h : s.close e = .ok t) :
    t.Spelt (us ++ (vs ++ ws) ++ [.rightParen]) := by
  have hwhole := hw.comparison' he
  unfold State.close at h
  dsimp only at h
  split at h
  · next outer below hbrackets =>
    obtain rfl := Except.ok.inj h
    rw [hbrackets] at hb
    obtain ⟨us, _, rfl, hbelow, outs, rfl, houter⟩ := hb
    exact ⟨⟨us, outs, _, by simp, hbelow, houter, .group hwhole⟩, fun h => by cases h⟩
  · next outer name args below hbrackets =>
    obtain rfl := Except.ok.inj h
    rw [hbrackets] at hb
    obtain ⟨us, _, rfl, hbelow, outs, parts, rfl, houter, hargs, hparts⟩ := hb
    have hcall := @derives_call name _ _ _ hparts hwhole
    rw [← hargs, ← List.reverse_cons] at hcall
    exact ⟨⟨us, outs, _, by simp, hbelow, houter, hcall⟩, fun h => by cases h⟩
  · cases h

theorem separate_spelt {e : Expr} {us vs ws : List Token} (hb : StackSpelt s.brackets us)
    (hw : s.waiting.Spelt vs) (he : Derives .primary ws e) (h : s.separate e = .ok t) :
    t.Spelt (us ++ (vs ++ ws) ++ [.comma]) := by
  have hwhole := hw.comparison' he
  unfold State.separate at h
  dsimp only at h
  split at h
  · next outer name args below hbrackets =>
    obtain rfl := Except.ok.inj h
    rw [hbrackets] at hb
    obtain ⟨us, _, rfl, hbelow, outs, parts, rfl, houter, hargs, hparts⟩ := hb
    refine ⟨⟨_, [], [], ?_, ⟨us, _, rfl, hbelow, outs, parts ++ [(vs ++ ws, s.waiting.comparison' e)],
      rfl, houter, ?_, ?_⟩, spelt_empty, rfl⟩, fun h => by cases h⟩
    · simp
    · simp [hargs]
    · intro x hx
      rcases List.mem_append.mp hx with hx | hx
      · exact hparts x hx
      · obtain rfl := List.mem_singleton.mp hx
        exact hwhole
  · cases h

/-- A computation that goes on from the tree of an operand. -/
theorem exists_toExpr {a : Atom} {f : Expr → Except Refusal State}
    (h : (do f (← a.toExpr)) = .ok t) : ∃ e, a.toExpr = .ok e ∧ f e = .ok t := by
  cases he : a.toExpr with
  | error r => rw [he] at h; cases h
  | ok e => exact ⟨e, rfl, by rw [he] at h; exact h⟩

theorem stepAfter_spelt (hs : s.Spelt ts) {a : Atom} (hmode : s.mode = .after a)
    (h : s.stepAfter a tok = .ok t) : t.Spelt (ts ++ [tok]) := by
  obtain ⟨bs, ws, ms, rfl, hb, hw, hm⟩ := hs.tokens
  rw [hmode] at hm
  cases tok with
  | op o =>
    obtain ⟨e, he, h⟩ := exists_toExpr h
    obtain rfl := Except.ok.inj h
    exact ⟨⟨bs, ws ++ ms ++ [.op o], [], by simp, hb, hw.push (hm.derives he) o, rfl⟩,
      fun h => by cases h⟩
  | rightParen =>
    obtain ⟨e, he, h⟩ := exists_toExpr h
    exact close_spelt hb hw (hm.derives he) h
  | comma =>
    obtain ⟨e, he, h⟩ := exists_toExpr h
    exact separate_spelt hb hw (hm.derives he) h
  | leftParen =>
    cases a with
    | name letters =>
      obtain rfl := Except.ok.inj h
      obtain rfl : ms = [.name letters] := hm
      refine ⟨⟨_, [], [], ?_, ⟨bs, _, rfl, hb, ws, [], rfl, hw, rfl, by simp⟩, spelt_empty, rfl⟩,
        fun _ => ⟨rfl, ?_⟩⟩
      · simp
      · rintro outer name args below ⟨⟩
        rfl
    | _ => cases h
  | colon =>
    cases a with
    | cell label =>
      obtain rfl := Except.ok.inj h
      obtain rfl : ms = [.cell label] := hm
      exact ⟨⟨bs, ws, [.cell label, .colon], by simp, hb, hw, rfl⟩, fun h => by cases h⟩
    | _ => cases h
  | number | cell | name => cases h

theorem stepCorner_spelt (hs : s.Spelt ts) {start : String} (hmode : s.mode = .corner start)
    (h : s.stepCorner start tok = .ok t) : t.Spelt (ts ++ [tok]) := by
  obtain ⟨bs, ws, ms, rfl, hb, hw, hm⟩ := hs.tokens
  rw [hmode] at hm
  obtain rfl : ms = _ := hm
  cases tok with
  | cell label =>
    obtain rfl := Except.ok.inj h
    exact ⟨⟨bs, ws, _, by simp, hb, hw, .range start label⟩, fun h => by cases h⟩
  | _ => cases h

/-- **One token.** -/
theorem step_spelt (hs : s.Spelt ts) (hr : Readable tok) (h : s.step tok = .ok t) :
    t.Spelt (ts ++ [tok]) := by
  unfold State.step at h
  split at h
  · next opened hmode => exact stepBefore_spelt hs hr hmode h
  · next a hmode => exact stepAfter_spelt hs hmode h
  · next start hmode => exact stepCorner_spelt hs hmode h

theorem start_spelt : State.start.Spelt [] :=
  ⟨⟨[], [], [], rfl, rfl, spelt_empty, rfl⟩, fun h => by cases h⟩

/-- **A tree that has been made is derived by the tokens read.** -/
theorem derives_of_finish (hs : s.Spelt ts) {e : Expr} (h : s.finish = .ok e) :
    Derives .comparison ts e := by
  obtain ⟨bs, ws, ms, rfl, hb, hw, hm⟩ := hs.tokens
  unfold State.finish at h
  split at h
  · next a hmode =>
    rw [hmode] at hm
    cases ha : a.toExpr with
    | error r => rw [ha] at h; cases h
    | ok d =>
      rw [ha] at h
      cases hbrackets : s.brackets with
      | nil =>
        simp only [hbrackets, bind, Except.bind] at h
        obtain rfl := Except.ok.inj h
        rw [hbrackets] at hb
        obtain rfl : bs = [] := hb
        exact hw.comparison' (hm.derives ha)
      | cons b below =>
        simp only [hbrackets, bind, Except.bind] at h
        cases h
  · cases h

end

/-! ### Phrases that are read -/

/-- What a phrase of a level must not find waiting. -/
def Waiting.Free : Level → Waiting → Prop
  | .comparison, w => w = {}
  | .sum, w => w.sum = none ∧ w.product = none ∧ w.minuses = 0
  | .product, w => w.product = none ∧ w.minuses = 0
  | .unary, _ | .primary, _ => True

/-- What waits after a phrase of a level, `w` having waited before it, completes the operand `x` at
its end to the tree `e` of the phrase. -/
def Completes (w w' : Waiting) (x e : Expr) : Level → Prop
  | .comparison => w'.comparison' x = e
  | .sum => w'.sum' x = e ∧ w'.comparison = w.comparison
  | .product => w'.product' x = e ∧ w'.comparison = w.comparison ∧ w'.sum = w.sum
  | .unary => ∃ n, w' = { w with minuses := w.minuses + n } ∧ Waiting.negate n x = e
  | .primary => w' = w ∧ x = e

/-- **The tokens leave an operand that completes the tree**, wherever an operand has to follow. -/
def Leaves (level : Level) (ts : List Token) (e : Expr) : Prop :=
  ∀ bs w opened, Waiting.Free level w → ∃ w' a x,
    ts.foldlM State.step ⟨bs, w, .before opened⟩ = .ok ⟨bs, w', .after a⟩ ∧ a.toExpr = .ok x ∧
      Completes w w' x e level

section

variable {level next : Level} {ts us : List Token} {e l r : Expr} {w w' w'' : Waiting} {x y : Expr}

theorem free_tighter (hn : level.tighter? = some next) (hw : w.Free level) : w.Free next := by
  cases level with
  | comparison =>
    obtain rfl := Option.some.inj hn
    obtain rfl : w = {} := hw
    exact ⟨rfl, rfl, rfl⟩
  | sum =>
    obtain rfl := Option.some.inj hn
    exact hw.2
  | product | unary =>
    obtain rfl := Option.some.inj hn
    trivial
  | primary => cases hn

theorem Completes.tighter (hn : level.tighter? = some next) (hw : w.Free level)
    (h : Completes w w' x e next) : Completes w w' x e level := by
  cases level with
  | comparison =>
    obtain rfl := Option.some.inj hn
    obtain rfl : w = {} := hw
    obtain ⟨hsum, hc⟩ := h
    show Waiting.join w'.comparison (w'.sum' x) = e
    rw [hc, hsum]
    rfl
  | sum =>
    obtain rfl := Option.some.inj hn
    obtain ⟨hproduct, hc, hs⟩ := h
    refine ⟨?_, hc⟩
    rw [Waiting.sum', hs, hproduct, hw.1]
    rfl
  | product =>
    obtain rfl := Option.some.inj hn
    obtain ⟨n, rfl, he⟩ := h
    refine ⟨?_, rfl, rfl⟩
    rw [Waiting.product', hw.1, hw.2, Nat.zero_add, he]
    rfl
  | unary =>
    obtain rfl := Option.some.inj hn
    obtain ⟨rfl, he⟩ := h
    exact ⟨0, rfl, he⟩
  | primary => cases hn

theorem tier_of_mem {op : Operator} : (op ∈ Level.product.operators → op.tier = .product) ∧
    (op ∈ Level.sum.operators → op.tier = .sum) ∧
    (op ∈ Level.comparison.operators → op.tier = .comparison) := by
  cases op <;> decide

/-- After a phrase and an operator of its level, a phrase of the next level finds nothing. -/
theorem free_push {op : Operator} (hn : level.tighter? = some next) (hop : op ∈ level.operators) :
    (w.push x op).Free next := by
  unfold Waiting.push
  cases level with
  | comparison =>
    obtain rfl := Option.some.inj hn
    rw [tier_of_mem.2.2 hop]
    exact ⟨rfl, rfl, rfl⟩
  | sum =>
    obtain rfl := Option.some.inj hn
    rw [tier_of_mem.2.1 hop]
    exact ⟨rfl, rfl⟩
  | product =>
    obtain rfl := Option.some.inj hn
    trivial
  | unary | primary => cases hop

theorem Completes.binary {op : Operator} (hn : level.tighter? = some next)
    (hop : op ∈ level.operators) (hl : Completes w w' x l level)
    (hr : Completes (w'.push x op) w'' y r next) : Completes w w'' y (.binary op l r) level := by
  unfold Waiting.push at hr
  cases level with
  | comparison =>
    obtain rfl := Option.some.inj hn
    rw [tier_of_mem.2.2 hop] at hr
    obtain ⟨hsum, hc⟩ := hr
    obtain rfl : w'.comparison' x = l := hl
    show Waiting.join w''.comparison (w''.sum' y) = _
    rw [hc, hsum]
    rfl
  | sum =>
    obtain rfl := Option.some.inj hn
    rw [tier_of_mem.2.1 hop] at hr
    obtain ⟨hproduct, hc, hs⟩ := hr
    obtain ⟨rfl, hcl⟩ := hl
    refine ⟨?_, hc.trans hcl⟩
    rw [Waiting.sum', hs, hproduct]
    rfl
  | product =>
    obtain rfl := Option.some.inj hn
    rw [tier_of_mem.1 hop] at hr
    obtain ⟨n, rfl, rfl⟩ := hr
    obtain ⟨rfl, hcl, hsl⟩ := hl
    refine ⟨?_, hcl, hsl⟩
    rw [Waiting.product', Nat.zero_add]
    rfl
  | unary | primary => cases hop

theorem IntegersFit.mono {ts us : List Token} (h : IntegersFit us) (hsub : ts ⊆ us) :
    IntegersFit ts :=
  fun digits hd => h digits (hsub hd)

theorem foldlM_append {s t : State} {ts us : List Token} (h : ts.foldlM State.step s = .ok t) :
    (ts ++ us).foldlM State.step s = us.foldlM State.step t := by
  rw [List.foldlM_append, h]
  rfl

theorem toExpr_of_denotes {numeral : String} {n : Number} (h : Denotes numeral n)
    (hfit : IntegersFit [.number numeral]) :
    (Atom.number numeral).toExpr = .ok (.literal (.scalar (.number n))) := by
  cases h with
  | integer h =>
    have hlen := hfit numeral List.mem_cons_self h
    simp only [Atom.toExpr, numberOf, List.contains_iff_mem, h, if_false, hlen, if_true]
    rfl
  | float h hx =>
    simp only [Atom.toExpr, numberOf, List.contains_iff_mem, h, if_true, hx]
    rfl

/-- Arguments are read one after the other, up to the end of the call. -/
theorem foldlM_arguments {outer : Waiting} {name : String} {bs : List Bracket} :
    ∀ (args : List (List Token × Expr)) (first : List Token × Expr) (done : List Expr)
      (opened : Bool), (∀ x ∈ first :: args, Leaves .comparison x.1 x.2) →
      (separated ((first :: args).map Prod.fst) ++ [Token.rightParen]).foldlM State.step
        ⟨.call outer name done :: bs, {}, .before opened⟩ =
      .ok ⟨bs, outer, .after (.whole (.call name (done.reverse ++ (first :: args).map Prod.snd)))⟩
  | [], first, done, opened, h => by
    obtain ⟨w', a, x, hfold, ha, hx⟩ :=
      h first List.mem_cons_self (.call outer name done :: bs) {} opened rfl
    have hone : separated (([first] : List (List Token × Expr)).map Prod.fst) = first.1 := by
      simp [separated]
    rw [hone, foldlM_append hfold]
    simp only [List.foldlM_cons, State.step, State.stepAfter, ha]
    show Except.ok (State.mk bs outer (.after (.whole (.call name (_ :: done).reverse)))) = _
    rw [show w'.comparison' x = first.2 from hx, List.reverse_cons]
    rfl
  | second :: args, first, done, opened, h => by
    obtain ⟨w', a, x, hfold, ha, hx⟩ :=
      h first List.mem_cons_self (.call outer name done :: bs) {} opened rfl
    have ih := @foldlM_arguments outer name bs args second
      (first.2 :: done) false fun y hy => h y (List.mem_cons_of_mem _ hy)
    have hcomma : State.step ⟨.call outer name done :: bs, w', .after a⟩ .comma =
        .ok ⟨.call outer name (first.2 :: done) :: bs, {}, .before false⟩ := by
      simp only [State.step, State.stepAfter, ha]
      show Except.ok (State.mk (.call outer name (w'.comparison' x :: done) :: bs) _ _) = _
      rw [show w'.comparison' x = first.2 from hx]
    rw [List.map_cons, List.map_cons, separated_cons, List.append_assoc, foldlM_append hfold,
      List.cons_append, List.foldlM_cons, hcomma]
    refine ih.trans ?_
    rw [List.reverse_cons, List.append_assoc]
    rfl

/-- **A derived phrase leaves an operand that completes its tree.** -/
theorem Derives.leaves (h : Derives level ts e) (hfit : IntegersFit ts) : Leaves level ts e := by
  induction h with
  | tighter hn _ ih =>
    intro bs w opened hw
    obtain ⟨w', a, x, hfold, ha, hx⟩ := ih hfit bs w opened (free_tighter hn hw)
    exact ⟨w', a, x, hfold, ha, hx.tighter hn hw⟩
  | @binary level next ts us l r op hn hop _ _ ihl ihr =>
    intro bs w opened hw
    obtain ⟨w', a, x, hfold, ha, hx⟩ := ihl (hfit.mono (by simp)) bs w opened hw
    obtain ⟨w'', b, y, hfold', hb, hy⟩ := ihr (hfit.mono fun t ht => by simp [ht]) bs (w'.push x op)
      false (free_push hn hop)
    refine ⟨w'', b, y, ?_, hb, hx.binary hn hop hy⟩
    have hop : State.step ⟨bs, w', .after a⟩ (.op op) = .ok ⟨bs, w'.push x op, .before false⟩ := by
      simp only [State.step, State.stepAfter, ha]
      rfl
    rw [foldlM_append hfold, List.foldlM_cons, hop]
    exact hfold'
  | neg _ ih =>
    intro bs w opened hw
    obtain ⟨w', a, x, hfold, ha, n, rfl, rfl⟩ :=
      ih (hfit.mono (by simp)) bs { w with minuses := w.minuses + 1 } false trivial
    refine ⟨_, a, x, hfold, ha, n + 1, ?_, rfl⟩
    simp only [Nat.add_assoc, Nat.add_comm 1]
  | number h =>
    intro bs w opened _
    exact ⟨w, .number _, _, rfl, toExpr_of_denotes h hfit, rfl, rfl⟩
  | cell label => exact fun bs w opened _ => ⟨w, .cell label, _, rfl, rfl, rfl, rfl⟩
  | range start stop =>
    exact fun bs w opened _ => ⟨w, .whole (.range start stop), _, rfl, rfl, rfl, rfl⟩
  | name letters => exact fun bs w opened _ => ⟨w, .name letters, _, rfl, rfl, rfl, rfl⟩
  | @call letters args _ ih =>
    intro bs w opened _
    refine ⟨w, .whole (.call letters (args.map Prod.snd)), _, ?_, rfl, rfl, rfl⟩
    cases args with
    | nil => rfl
    | cons first args =>
      refine foldlM_arguments args first [] true fun x hx => ih x hx (hfit.mono ?_)
      refine fun t ht => List.mem_append_left _ (List.mem_cons_of_mem _ (List.mem_cons_of_mem _ ?_))
      exact subset_separated (List.mem_map_of_mem hx) ht
  | @group ts e _ ih =>
    intro bs w opened _
    obtain ⟨w', a, x, hfold, ha, hx⟩ := ih (hfit.mono (by simp)) (.group w :: bs) {} false rfl
    obtain rfl : w'.comparison' x = e := hx
    refine ⟨w, .whole (w'.comparison' x), _, ?_, rfl, rfl, rfl⟩
    rw [List.cons_append, List.foldlM_cons]
    refine (foldlM_append hfold).trans ?_
    simp only [List.foldlM_cons, State.step, State.stepAfter, ha]
    rfl

end

/-! ### Texts -/

section

variable {s t : State} {ts us : List Token} {text : String} {e : Expr}

theorem mapError_eq_ok {α : Type} {x : Except Refusal α} {f : Refusal → Fault} {a : α} :
    x.mapError f = .ok a ↔ x = .ok a := by
  cases x with
  | ok b => exact ⟨fun h => congrArg _ (Except.ok.inj h), fun h => congrArg _ (Except.ok.inj h)⟩
  | error r => exact ⟨fun h => (by cases h), fun h => (by cases h)⟩

theorem foldlM_stepPlaced : ∀ {placed : List Placed} {s : State},
    placed.foldlM State.stepPlaced s = .ok t ↔
      (placed.map Placed.token).foldlM State.step s = .ok t
  | [], s => ⟨fun h => congrArg _ (Except.ok.inj h), fun h => congrArg _ (Except.ok.inj h)⟩
  | p :: placed, s => by
    rw [List.foldlM_cons, List.map_cons, List.foldlM_cons, State.stepPlaced]
    cases s.step p.token with
    | ok u => exact foldlM_stepPlaced
    | error r => exact ⟨fun h => (by cases h), fun h => (by cases h)⟩

/-- A text has a tree if it can be split into tokens, all of them can be taken, and the last of them
may end a formula. -/
theorem ofScan_eq_ok {scan : Scan} {length : Nat} : ofScan scan length = .ok e ↔
    scan.fault = none ∧ ∃ s, (scan.tokens.map Placed.token).foldlM State.step State.start = .ok s ∧
      s.finish = .ok e := by
  unfold ofScan
  cases hfold : scan.tokens.foldlM State.stepPlaced State.start with
  | error f =>
    refine ⟨fun h => (by cases h), ?_⟩
    rintro ⟨-, s, hs, -⟩
    cases hfold.symm.trans (foldlM_stepPlaced.mpr hs)
  | ok s =>
    have hs := foldlM_stepPlaced.mp hfold
    cases hfault : scan.fault with
    | some f =>
      refine ⟨fun h => (by cases h), ?_⟩
      rintro ⟨⟨⟩, -⟩
    | none =>
      refine ⟨fun h => ⟨rfl, s, hs, mapError_eq_ok.mp h⟩, ?_⟩
      rintro ⟨-, s', hs', hfinish⟩
      obtain rfl := Except.ok.inj (hs.symm.trans hs')
      exact mapError_eq_ok.mpr hfinish

theorem foldlM_spelt : ∀ {us ts : List Token} {s : State}, s.Spelt ts → (∀ u ∈ us, Readable u) →
    us.foldlM State.step s = .ok t → t.Spelt (ts ++ us)
  | [], ts, s, hs, _, h => by
    obtain rfl := Except.ok.inj h
    rwa [List.append_nil]
  | u :: us, ts, s, hs, hr, h => by
    rw [List.foldlM_cons] at h
    cases hu : s.step u with
    | error r => rw [hu] at h; cases h
    | ok s' =>
      rw [hu] at h
      have hs' := step_spelt hs (hr u List.mem_cons_self) hu
      have ht := foldlM_spelt hs' (fun v hv => hr v (List.mem_cons_of_mem _ hv)) h
      rwa [List.append_assoc] at ht

/-- **Tokens that have been read to a tree derive it.** -/
theorem derives_of_foldlM (hr : ∀ t ∈ ts, Readable t)
    (hfold : ts.foldlM State.step State.start = .ok s) (h : s.finish = .ok e) :
    Derives .comparison ts e :=
  derives_of_finish (foldlM_spelt start_spelt hr hfold) h

/-- **Tokens that derive a tree are read to it.** -/
theorem Derives.foldlM (h : Derives .comparison ts e) (hfit : IntegersFit ts) : ∃ s,
    ts.foldlM State.step State.start = .ok s ∧ s.finish = .ok e := by
  obtain ⟨w, a, x, hfold, ha, hx⟩ := h.leaves hfit [] {} false rfl
  refine ⟨_, hfold, ?_⟩
  simp only [State.finish, ha]
  exact congrArg Except.ok hx

/-! ### Blank texts -/

theorem front_blank {c : Char} (rest : List Char) (h : Text.isBlank c = true) :
    Token.front (c :: rest) = .stray := by
  have hrange : c.toNat < 33 ∨ 133 ≤ c.toNat := by
    simp only [Text.isBlank, Bool.or_eq_true, Bool.and_eq_true, decide_eq_true_eq, beq_iff_eq] at h
    omega
  have hletter : Label.isLetter c = false := by
    simp only [Label.isLetter, Bool.or_eq_false_iff, Bool.and_eq_false_iff, decide_eq_false_iff_not]
    omega
  have hdigit : Decimal.isAsciiDigit c = false := by
    simp only [Decimal.isAsciiDigit, Bool.and_eq_false_iff, decide_eq_false_iff_not]
    omega
  have hpoint : c ≠ '.' := fun he => absurd h (he ▸ by decide)
  simp only [Token.front, hletter, hdigit, hpoint, decide_false, Bool.false_and, Bool.or_false,
    Bool.false_eq_true, if_false]
  unfold Token.signFront
  split
  case h_15 => rfl
  all_goals
    next he =>
      obtain rfl := (List.cons.inj he).1
      cases h

theorem tokens_of_blank : ∀ {cs : List Char} {start : Nat}, cs.all Text.isBlank = true →
    (Scan.ofListFrom 0 start cs).tokens = []
  | [], _, _ => by simp [Scan.ofListFrom]
  | c :: rest, start, h => by
    rw [List.all_cons, Bool.and_eq_true] at h
    unfold Scan.ofListFrom
    dsimp only
    split_ifs
    · exact tokens_of_blank h.2
    · rw [front_blank rest h.1]

theorem ofBody_eq_ok {body : String} : ofBody body = .ok e ↔ ∃ placed, tokenize body = .ok placed ∧
    ∃ s, (placed.map Placed.token).foldlM State.step State.start = .ok s ∧ s.finish = .ok e := by
  have hscan : ofBody body = .ok e ↔ ofScan (Scan.ofBody body) body.length = .ok e := by
    unfold ofBody
    split_ifs with hblank
    · refine ⟨fun h => (by cases h), fun h => ?_⟩
      obtain ⟨-, s, hfold, hfinish⟩ := ofScan_eq_ok.mp h
      rw [Scan.ofBody, tokens_of_blank hblank] at hfold
      obtain rfl := Except.ok.inj hfold
      cases hfinish
    · exact Iff.rfl
  rw [hscan, ofScan_eq_ok]
  constructor
  · rintro ⟨hfault, h⟩
    exact ⟨_, tokenize_eq_ok.mpr ⟨hfault, rfl⟩, h⟩
  · rintro ⟨placed, htokens, h⟩
    obtain ⟨hfault, rfl⟩ := tokenize_eq_ok.mp htokens
    exact ⟨hfault, h⟩

theorem ofText_eq_ok : ofText text = .ok e ↔ ∃ body placed,
    Text.trimList text.toList = '=' :: body ∧ tokenize (String.ofList body) = .ok placed ∧
      ∃ s, (placed.map Placed.token).foldlM State.step State.start = .ok s ∧ s.finish = .ok e := by
  unfold ofText
  split
  · next body htrim =>
    rw [ofBody_eq_ok]
    constructor
    · rintro ⟨placed, h⟩
      exact ⟨body, placed, htrim, h⟩
    · rintro ⟨body', placed, hbody', h⟩
      obtain rfl := (List.cons.inj (htrim.symm.trans hbody')).2
      exact ⟨placed, h⟩
  · next hne =>
    refine ⟨fun h => (by cases h), ?_⟩
    rintro ⟨body, -, htrim, -⟩
    exact absurd htrim (hne body)

/-! ### Texts that are refused -/

theorem Atom.Spelt.exists_tree {a : Atom} (h : a.Spelt ts) (hfit : IntegersFit ts) :
    ∃ e, a.toExpr = .ok e := by
  cases a with
  | number numeral =>
    obtain ⟨rfl, hr⟩ := h
    by_cases hpoint : '.' ∈ numeral.toList
    · obtain ⟨x, hx⟩ := hr hpoint
      exact ⟨_, toExpr_of_denotes (.float hpoint hx) hfit⟩
    · exact ⟨_, toExpr_of_denotes (.integer hpoint) hfit⟩
  | _ => exact ⟨_, rfl⟩

theorem stepBefore_refused {opened : Bool} {tok : Token} {r : Refusal}
    (h : s.stepBefore opened tok = .error r) : r = .unexpected := by
  cases tok with
  | number | name | cell | leftParen => cases h
  | op o =>
    cases o with
    | sub => cases h
    | _ => exact (Except.error.inj h).symm
  | rightParen =>
    unfold State.stepBefore at h
    dsimp only at h
    split at h
    · cases h
    · exact (Except.error.inj h).symm
  | comma | colon => exact (Except.error.inj h).symm

theorem close_refused {r : Refusal} (h : s.close e = .error r) : r = .unexpected := by
  unfold State.close at h
  dsimp only at h
  split at h
  · cases h
  · cases h
  · exact (Except.error.inj h).symm

theorem separate_refused {r : Refusal} (h : s.separate e = .error r) : r = .unexpected := by
  unfold State.separate at h
  dsimp only at h
  split at h
  · cases h
  · exact (Except.error.inj h).symm

theorem stepAfter_refused {a : Atom} {tok : Token} {r : Refusal} (he : a.toExpr = .ok e)
    (h : s.stepAfter a tok = .error r) : r = .unexpected := by
  cases tok with
  | op o => rw [State.stepAfter, he] at h; cases h
  | rightParen => rw [State.stepAfter, he] at h; exact close_refused h
  | comma => rw [State.stepAfter, he] at h; exact separate_refused h
  | leftParen =>
    cases a with
    | name letters => cases h
    | _ => exact (Except.error.inj h).symm
  | colon =>
    cases a with
    | cell label => cases h
    | _ => exact (Except.error.inj h).symm
  | number | name | cell => exact (Except.error.inj h).symm

/-- **If the integers fit, a token is refused only as unexpected.** -/
theorem step_refused {tok : Token} {r : Refusal} (hs : s.Spelt ts) (hfit : IntegersFit ts)
    (h : s.step tok = .error r) : r = .unexpected := by
  obtain ⟨bs, ws, ms, rfl, -, -, hm⟩ := hs.tokens
  unfold State.step at h
  split at h
  · exact stepBefore_refused h
  · next a hmode =>
    rw [hmode] at hm
    obtain ⟨e, he⟩ := hm.exists_tree (hfit.mono fun t ht => by simp [ht])
    exact stepAfter_refused he h
  · unfold State.stepCorner at h
    split at h
    · cases h
    · exact (Except.error.inj h).symm

theorem finish_refused {r : Refusal} (hs : s.Spelt ts) (hfit : IntegersFit ts)
    (h : s.finish = .error r) : r = .unexpected := by
  obtain ⟨bs, ws, ms, rfl, -, -, hm⟩ := hs.tokens
  unfold State.finish at h
  split at h
  · next a hmode =>
    rw [hmode] at hm
    obtain ⟨e, he⟩ := hm.exists_tree (hfit.mono fun t ht => by simp [ht])
    rw [he] at h
    simp only [bind, Except.bind] at h
    split_ifs at h
    · cases h
    · exact (Except.error.inj h).symm
  · exact (Except.error.inj h).symm

/-- Tokens whose integers fit are taken, or refused by the grammar. -/
theorem foldlM_refused {f : Fault} : ∀ {placed : List Placed} {ts : List Token} {s : State},
    s.Spelt ts → (∀ p ∈ placed, Readable p.token) →
      IntegersFit (ts ++ placed.map Placed.token) →
        placed.foldlM State.stepPlaced s = .error f → IsBadSyntax f
  | [], _, _, _, _, _, h => by cases h
  | p :: placed, ts, s, hs, hr, hfit, h => by
    rw [List.foldlM_cons, State.stepPlaced] at h
    cases hp : s.step p.token with
    | error r =>
      rw [hp] at h
      obtain rfl := step_refused hs (hfit.mono fun t ht => by simp [ht]) hp
      exact ⟨_, _, (Except.error.inj h).symm⟩
    | ok s' =>
      rw [hp] at h
      have hs' := step_spelt hs (hr p List.mem_cons_self) hp
      refine foldlM_refused hs' (fun q hq => hr q (List.mem_cons_of_mem p hq)) ?_ h
      simpa using hfit

/-- **A text whose integers fit has a tree or is refused by the grammar.** -/
theorem badSyntax_of_ofText {f : Fault} (hfit : IntegersFit (tokens text))
    (h : ofText text = .error f) : IsBadSyntax f := by
  unfold tokens at hfit
  unfold ofText at h
  split at h
  · next body hbody =>
    rw [hbody] at hfit
    have hr := readable_of_mem_scan 0 0 (String.ofList body).toList
    unfold ofBody at h
    split_ifs at h
    · exact ⟨_, _, (Except.error.inj h).symm⟩
    · unfold ofScan at h
      cases hfold :
        (Scan.ofBody (String.ofList body)).tokens.foldlM State.stepPlaced State.start with
      | error g =>
        rw [hfold] at h
        obtain rfl : g = f := Except.error.inj h
        exact foldlM_refused start_spelt hr hfit hfold
      | ok s =>
        rw [hfold] at h
        cases hfault : (Scan.ofBody (String.ofList body)).fault with
        | some g =>
          rw [hfault] at h
          obtain rfl : g = f := Except.error.inj h
          exact (Scan.ofListFrom_sound 0 0 (String.ofList body).toList).2 g hfault
        | none =>
          rw [hfault] at h
          have hs := foldlM_spelt start_spelt (List.forall_mem_map.mpr hr)
            (foldlM_stepPlaced.mp hfold)
          change s.finish.mapError _ = .error f at h
          cases hfinish : s.finish with
          | ok e => rw [hfinish] at h; cases h
          | error r =>
            rw [hfinish] at h
            obtain rfl := finish_refused hs hfit hfinish
            exact ⟨_, _, (Except.error.inj h).symm⟩
  · exact ⟨_, _, (Except.error.inj h).symm⟩

end

/-! ### Labels -/

/-- The cells of a tree are among the tokens that derive it. -/
theorem Derives.plainCells {level : Level} {ts : List Token} {e : Expr} (h : Derives level ts e)
    (hplain : ∀ t ∈ ts, t.PlainCell) : e.PlainCells := by
  induction h with
  | tighter _ _ ih => exact ih hplain
  | binary _ _ _ _ ihl ihr =>
    intro label hlabel
    rcases (by simpa [Expr.mentions, Expr.occurrences] using hlabel : _ ∨ _) with h | h
    · exact ihl (fun t ht => hplain t (by simp [ht])) label h
    · exact ihr (fun t ht => hplain t (by simp [ht])) label h
  | neg _ ih =>
    intro label hlabel
    refine ih (fun t ht => hplain t (List.mem_cons_of_mem _ ht)) label ?_
    simpa [Expr.mentions, Expr.occurrences] using hlabel
  | number | name => intro label hlabel; simp [Expr.mentions, Expr.occurrences] at hlabel
  | range start stop => intro label hlabel; simp [Expr.mentions, Expr.occurrences] at hlabel
  | cell here =>
    intro label hlabel
    obtain rfl : label = here := by simpa [Expr.mentions, Expr.occurrences] using hlabel
    exact hplain (.cell label) List.mem_cons_self
  | @call letters args _ ih =>
    intro label hlabel
    obtain ⟨d, ⟨ts, hmem⟩, hd⟩ : ∃ d, (∃ ts, (ts, d) ∈ args) ∧ .cell label ∈ d.mentions := by
      simpa [Expr.mentions, Expr.occurrences] using hlabel
    refine ih (ts, d) hmem (fun t ht => hplain t ?_) label hd
    refine List.mem_append_left _ (List.mem_cons_of_mem _ (List.mem_cons_of_mem _ ?_))
    exact subset_separated (List.mem_map_of_mem hmem) ht
  | group _ ih => exact ih fun t ht => hplain t (by simp [ht])

/-- **The cells that a formula refers to have plain labels**, however long its numerals are. -/
theorem plainCells_of_ofBody {body : String} {e : Expr} (h : ofBody body = .ok e) :
    e.PlainCells := by
  obtain ⟨placed, htokens, s, hfold, hs⟩ := ofBody_eq_ok.mp h
  obtain ⟨-, rfl⟩ := tokenize_eq_ok.mp htokens
  have hr := readable_of_mem_scan 0 0 body.toList
  have hplain := (Scan.ofListFrom_sound 0 0 body.toList).1
  exact (derives_of_foldlM (List.forall_mem_map.mpr hr) hfold hs).plainCells
    (List.forall_mem_map.mpr hplain)

theorem plainCells_of_ofText {text : String} {e : Expr} (h : ofText text = .ok e) :
    e.PlainCells := by
  unfold ofText at h
  split at h
  · exact plainCells_of_ofBody h
  · cases h

/-- **The texts with a tree are those that the grammar derives**, if the integers in them fit: a
text has the tree that it derives, and no other; all other texts are refused. -/
theorem ofText_iff_grammatical {text : String} (hfit : IntegersFit (tokens text)) :
    (∀ e, ofText text = .ok e ↔ Grammatical text e) ∧
      ((¬ ∃ e, Grammatical text e) →
        ∃ reason position, ofText text = .error (.badSyntax reason position)) ∧
      ∀ e e', Grammatical text e → Grammatical text e' → e = e' := by
  have hiff (e : Expr) : ofText text = .ok e ↔ Grammatical text e := by
    rw [ofText_eq_ok]
    constructor
    · rintro ⟨body, placed, hbody, htokens, s, hfold, hs⟩
      obtain ⟨-, rfl⟩ := tokenize_eq_ok.mp htokens
      have hr := readable_of_mem_scan 0 0 (String.ofList body).toList
      exact ⟨body, _, hbody, htokens, derives_of_foldlM (List.forall_mem_map.mpr hr) hfold hs⟩
    · rintro ⟨body, placed, hbody, htokens, h⟩
      obtain ⟨-, rfl⟩ := tokenize_eq_ok.mp htokens
      simp only [tokens, hbody] at hfit
      exact ⟨body, _, hbody, htokens, h.foldlM hfit⟩
  refine ⟨hiff, fun hno => ?_, fun e e' h h' => ?_⟩
  · cases h : ofText text with
    | ok e => exact absurd ⟨e, (hiff e).mp h⟩ hno
    | error f =>
      obtain ⟨reason, position, rfl⟩ := badSyntax_of_ofText hfit h
      exact ⟨reason, position, rfl⟩
  · exact Except.ok.inj (((hiff e).mpr h).symm.trans ((hiff e').mpr h'))

theorem ofText_iff_grammatical_chained : IntegersFit (tokens " =1-A2-3*-B4=SUM(A1:B2,X)") ∧
    (∀ e, ofText " =1-A2-3*-B4=SUM(A1:B2,X)" = .ok e ↔
      Grammatical " =1-A2-3*-B4=SUM(A1:B2,X)" e) ∧
    ((¬ ∃ e, Grammatical " =1-A2-3*-B4=SUM(A1:B2,X)" e) → ∃ reason position,
      ofText " =1-A2-3*-B4=SUM(A1:B2,X)" = .error (.badSyntax reason position)) ∧
    ∀ e e', Grammatical " =1-A2-3*-B4=SUM(A1:B2,X)" e →
      Grammatical " =1-A2-3*-B4=SUM(A1:B2,X)" e' → e = e' := by
  have hfit : IntegersFit (tokens " =1-A2-3*-B4=SUM(A1:B2,X)") :=
    (numeralsFit_of_short (by decide)).integers
  exact ⟨hfit, ofText_iff_grammatical hfit⟩

end Spreadsheet.Formula
