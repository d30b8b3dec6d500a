import Spreadsheet.Proofs.Formula.Spacing
import Spreadsheet.Proofs.Keys

/-! # Formulas inside formulas

A text that is a formula stays one wherever an operand may stand: in brackets, as an operand of
every operator, under a minus, and as an argument of a call. What follows it is a bracket or a
comma, and neither goes on a token, so the text has its own tokens there (`Yields.before`); and what
its tokens derive is an operand once it is in brackets (`Phrase`).

Main statement: `ofBody_compose`. -/

namespace Spreadsheet

open Token (Picks Divides)

/-! ### Tokens of texts put together -/

section

variable {after cs ds letters : List Char} {ts us : List Token} {t : Token} {c : Char}

/-- A text keeps its tokens before a character that goes on none. -/
theorem Yields.before (h : Yields [] cs ts) (hafter : ∀ d ∈ after.head?, Divides d) :
    Yields after cs ts := by
  induction h with
  | done => exact .done
  | space hc _ ih => exact .space hc ih
  | @token word cs t ts ht _ ih =>
    rw [List.append_nil] at ht
    exact .token (ht.respell rfl (Token.follows_append hafter cs)) ih

theorem Yields.append (h : Yields (ds ++ after) cs ts) (h' : Yields after ds us) :
    Yields after (cs ++ ds) (ts ++ us) := by
  induction h with
  | done => exact h'
  | space hc _ ih => exact .space hc ih
  | token ht _ ih =>
    rw [List.append_assoc]
    exact .token (by rwa [List.append_assoc]) ih

theorem Yields.sign (ht : ([c], t) ∈ Token.signs) (hc : c ≠ '>' ∧ c ≠ '<' ∧ c ≠ '!')
    (h : Yields after cs ts) : Yields after (c :: cs) (t :: ts) :=
  @Yields.token after [c] cs t ts (.sign ht (Token.length_le_of_signs fun _ _ => hc)) h

theorem Yields.comma (h : Yields after cs ts) : Yields after (',' :: cs) (.comma :: ts) :=
  h.sign (by decide) (by decide)

theorem Yields.minus (h : Yields after cs ts) : Yields after ('-' :: cs) (.op .sub :: ts) :=
  h.sign (by decide) (by decide)

theorem divides_leftParen : Divides '(' := ⟨rfl, rfl, by decide⟩

theorem divides_rightParen : Divides ')' := ⟨rfl, rfl, by decide⟩

theorem divides_comma : Divides ',' := ⟨rfl, rfl, by decide⟩

theorem forall_head_cons (hc : Divides c) : ∀ d ∈ (c :: cs).head?, Divides d := by
  rintro d ⟨⟩
  exact hc

/-- A text in brackets. -/
theorem Yields.bracketed (h : Yields [] cs ts) (hrest : Yields after ds us) :
    Yields after ('(' :: (cs ++ ')' :: ds)) (.leftParen :: (ts ++ .rightParen :: us)) := by
  have hclose : Yields after (')' :: ds) (.rightParen :: us) := hrest.sign (by decide) (by decide)
  have hinner : Yields (')' :: ds ++ after) cs ts := h.before (forall_head_cons divides_rightParen)
  exact (hinner.append hclose).sign (by decide) (by decide)

/-- An operator before a bracket is not taken for a longer one. -/
theorem Yields.operator (h : Yields after ('(' :: cs) ts) (o : Operator) :
    Yields after (o.symbol.toList ++ '(' :: cs) (.op o :: ts) := by
  have halone : Picks o.symbol.toList [] (.op o) :=
    .sign (by cases o <;> decide) (by cases o <;> decide)
  exact .token (halone.respell rfl fun d hd => Or.inl (forall_head_cons divides_leftParen d hd)) h

theorem Yields.name (hl : letters ≠ []) (hletters : ∀ c ∈ letters, Label.isLetter c = true)
    (h : Yields after ('(' :: cs) ts) : Yields after (letters ++ '(' :: cs)
      (.name (String.ofList (letters.map Char.toUpper)) :: ts) :=
  .token (.name hl hletters (Token.ended_cons.mpr rfl) (Token.ended_cons.mpr rfl)) h

end

namespace Formula

/-! ### Levels of the grammar -/

section

variable {level : Level} {ts us : List Token} {e l r : Expr}

theorem Derives.of_primary (h : Derives .primary ts e) (level : Level) : Derives level ts e := by
  have hunary : Derives .unary ts e := .tighter rfl h
  have hproduct : Derives .product ts e := .tighter rfl hunary
  have hsum : Derives .sum ts e := .tighter rfl hproduct
  have hcomparison : Derives .comparison ts e := .tighter rfl hsum
  cases level <;> assumption

theorem Derives.comparison (h : Derives level ts e) : Derives .comparison ts e := by
  have hsum (h : Derives .sum ts e) : Derives .comparison ts e := .tighter rfl h
  have hproduct (h : Derives .product ts e) : Derives .comparison ts e := hsum (.tighter rfl h)
  have hunary (h : Derives .unary ts e) : Derives .comparison ts e := hproduct (.tighter rfl h)
  cases level with
  | comparison => exact h
  | sum => exact hsum h
  | product => exact hproduct h
  | unary => exact hunary h
  | primary => exact h.of_primary .comparison

/-- Operands that are derived at every level are those of every operator. -/
theorem derives_binary (op : Operator) (hl : Derives .primary ts l) (hr : Derives .primary us r) :
    Derives .comparison (ts ++ .op op :: us) (.binary op l r) := by
  obtain ⟨hproduct, hsum, hcomparison⟩ := mem_operators op
  cases htier : op.tier with
  | product =>
    exact (Derives.binary rfl (hproduct htier) (hl.of_primary _) (hr.of_primary _)).comparison
  | sum => exact (Derives.binary rfl (hsum htier) (hl.of_primary _) (hr.of_primary _)).comparison
  | comparison => exact .binary rfl (hcomparison htier) (hl.of_primary _) (hr.of_primary _)

end

/-! ### Integers that have been read -/

section

variable {s t : State} {ts us : List Token} {tok : Token} {e : Expr} {digits : String}

theorem integersFit_of_toExpr (h : (Atom.number digits).toExpr = .ok e) :
    IntegersFit [.number digits] := by
  intro text htext hpoint
  obtain rfl := Token.number.inj (List.mem_singleton.mp htext)
  by_contra hlong
  simp [Atom.toExpr, numberOf, hpoint, hlong] at h

theorem integersFit_append : IntegersFit (ts ++ us) ↔ IntegersFit ts ∧ IntegersFit us := by
  constructor
  · intro h
    exact ⟨h.mono (List.subset_append_left ts us), h.mono (List.subset_append_right ts us)⟩
  · rintro ⟨ht, hu⟩ digits hd
    rcases List.mem_append.mp hd with hd | hd
    · exact ht digits hd
    · exact hu digits hd

theorem integersFit_nil : IntegersFit [] := by
  intro digits hd
  cases hd

theorem integersFit_cons : IntegersFit (tok :: ts) ↔ IntegersFit [tok] ∧ IntegersFit ts :=
  @integersFit_append [tok] ts

theorem IntegersFit.cons (h : IntegersFit ts) (htok : ∀ digits, tok ≠ .number digits) :
    IntegersFit (tok :: ts) := by
  refine integersFit_cons.mpr ⟨fun digits hd => ?_, h⟩
  exact absurd (List.mem_singleton.mp hd).symm (htok digits)

theorem IntegersFit.bracketed (h : IntegersFit ts) (hrest : IntegersFit us) :
    IntegersFit (.leftParen :: (ts ++ .rightParen :: us)) :=
  (integersFit_append.mpr ⟨h, hrest.cons (by simp)⟩).cons (by simp)

/-- A numeral that is an operand is read when the next token is taken. -/
theorem exists_toExpr_of_step (hmode : s.mode = .after (.number digits)) (h : s.step tok = .ok t) :
    ∃ e, (Atom.number digits).toExpr = .ok e := by
  unfold State.step at h
  rw [hmode] at h
  cases tok with
  | op | rightParen | comma =>
    obtain ⟨e, he, -⟩ := exists_toExpr h
    exact ⟨e, he⟩
  | number | cell | name | leftParen | colon => cases h

theorem exists_toExpr_of_finish (hmode : s.mode = .after (.number digits)) (h : s.finish = .ok e) :
    ∃ e, (Atom.number digits).toExpr = .ok e := by
  unfold State.finish at h
  rw [hmode] at h
  cases hn : (Atom.number digits).toExpr with
  | ok n => exact ⟨n, rfl⟩
  | error r =>
    dsimp only at h
    rw [hn] at h
    cases h

theorem mode_of_step_number (h : s.step (.number digits) = .ok t) :
    t.mode = .after (.number digits) := by
  unfold State.step at h
  split at h
  · obtain rfl := Except.ok.inj h
    rfl
  · cases h
  · cases h

/-- **Tokens that have been read to a tree** have no integer with too many digits. A numeral is read
one token after it has been taken, so it is also told of the state. -/
theorem integersFit_of_foldlM : ∀ {ts : List Token} {s : State}, ts.foldlM State.step s = .ok t →
    t.finish = .ok e → (∀ digits, s.mode = .after (.number digits) → IntegersFit [.number digits]) ∧
      IntegersFit ts
  | [], s, hfold, hfinish => by
    obtain rfl := Except.ok.inj hfold
    refine ⟨fun digits hmode => ?_, integersFit_nil⟩
    obtain ⟨n, hn⟩ := exists_toExpr_of_finish hmode hfinish
    exact integersFit_of_toExpr hn
  | tok :: ts, s, hfold, hfinish => by
    rw [List.foldlM_cons] at hfold
    cases hstep : s.step tok with
    | error r => rw [hstep] at hfold; cases hfold
    | ok u =>
      rw [hstep] at hfold
      obtain ⟨hmode, hts⟩ := integersFit_of_foldlM hfold hfinish
      refine ⟨fun digits hs => ?_, integersFit_cons.mpr ⟨?_, hts⟩⟩
      · obtain ⟨n, hn⟩ := exists_toExpr_of_step hs hstep
        exact integersFit_of_toExpr hn
      · intro digits hd
        obtain rfl := List.mem_singleton.mp hd
        exact hmode digits (mode_of_step_number hstep) digits List.mem_cons_self

end

/-! ### Phrases -/

/-- **The text is a phrase** of the level, with the tree. -/
def Phrase (level : Level) (cs : List Char) (e : Expr) : Prop :=
  ∃ ts, Yields [] cs ts ∧ Derives level ts e ∧ IntegersFit ts

/-- The texts in order with commas between them. -/
def listed (texts : List (List Char)) : List Char :=
  [','].intercalate texts

section

variable {level : Level} {cs ds letters : List Char} {s t e : Expr} {body : String}
  {parts : List (List Char × Expr)}

theorem readable_of_tokenize {placed : List Placed} (h : tokenize body = .ok placed) :
    ∀ t ∈ placed.map Placed.token, Readable t := by
  obtain ⟨-, rfl⟩ := tokenize_eq_ok.mp h
  exact readable_of_subset (List.Subset.refl _)

/-- **A text has a tree** if it is a phrase of the loosest level. -/
theorem ofBody_eq_ok_iff_phrase : ofBody body = .ok e ↔ Phrase .comparison body.toList e := by
  rw [ofBody_eq_ok]
  constructor
  · rintro ⟨placed, htokens, s, hfold, hfinish⟩
    exact ⟨_, exists_tokenize_iff.mp ⟨placed, htokens, rfl⟩,
      derives_of_foldlM (readable_of_tokenize htokens) hfold hfinish,
      (integersFit_of_foldlM hfold hfinish).2⟩
  · rintro ⟨ts, hyields, hderives, hfit⟩
    obtain ⟨placed, htokens, rfl⟩ := exists_tokenize_iff.mpr hyields
    exact ⟨placed, htokens, hderives.foldlM hfit⟩

theorem listed_cons (cs ds : List Char) (texts : List (List Char)) :
    listed (cs :: ds :: texts) = cs ++ ',' :: listed (ds :: texts) := by
  rw [listed, List.intercalate_cons_cons, List.append_assoc]
  rfl

/-- The arguments of a call. -/
theorem exists_arguments : ∀ {parts : List (List Char × Expr)},
    (∀ x ∈ parts, Phrase .comparison x.1 x.2) → ∃ args : List (List Token × Expr),
      args.map Prod.snd = parts.map Prod.snd ∧ (∀ x ∈ args, Derives .comparison x.1 x.2) ∧
        IntegersFit (separated (args.map Prod.fst)) ∧
          Yields [] (listed (parts.map Prod.fst)) (separated (args.map Prod.fst))
  | [], _ => ⟨[], rfl, by simp, integersFit_nil, .done⟩
  | [(cs, e)], h => by
    obtain ⟨ts, hyields, hderives, hfit⟩ := h (cs, e) List.mem_cons_self
    refine ⟨[(ts, e)], rfl, List.forall_mem_singleton.mpr hderives, ?_, ?_⟩
    · simpa [separated] using hfit
    · simpa [separated, listed] using hyields
  | (cs, e) :: q :: parts, h => by
    obtain ⟨ts, hyields, hderives, hfit⟩ := h (cs, e) List.mem_cons_self
    obtain ⟨args, hargs, hall, hfits, hrest⟩ :=
      exists_arguments fun x hx => h x (List.mem_cons_of_mem (cs, e) hx)
    obtain ⟨arg, args, rfl, -, -⟩ := List.map_eq_cons_iff.mp hargs
    refine ⟨(ts, e) :: arg :: args, by rw [List.map_cons, hargs]; rfl,
      List.forall_mem_cons.mpr ⟨hderives, hall⟩, ?_, ?_⟩
    · rw [List.map_cons, List.map_cons, separated_cons]
      exact integersFit_append.mpr ⟨hfit, hfits.cons (by simp)⟩
    · simp only [List.map_cons, separated_cons, listed_cons]
      exact Yields.append (hyields.before (forall_head_cons divides_comma)) hrest.comma

theorem Phrase.loosen (h : Phrase level cs e) : Phrase .comparison cs e := by
  obtain ⟨ts, hyields, hderives, hfit⟩ := h
  exact ⟨ts, hyields, hderives.comparison, hfit⟩

/-- A phrase in brackets is an operand. -/
theorem Phrase.group (h : Phrase .comparison cs e) : Phrase .primary ('(' :: (cs ++ [')'])) e := by
  obtain ⟨ts, hyields, hderives, hfit⟩ := h
  exact ⟨_, hyields.bracketed .done, .group hderives, hfit.bracketed integersFit_nil⟩

theorem Phrase.binary (hs : Phrase .comparison cs s) (ht : Phrase .comparison ds t)
    (op : Operator) :
    Phrase .comparison ('(' :: (cs ++ ')' :: (op.symbol.toList ++ '(' :: (ds ++ [')']))))
      (.binary op s t) := by
  obtain ⟨ts, hts, hs, hfit⟩ := hs
  obtain ⟨us, hus, ht, hfit'⟩ := ht
  have hderives := derives_binary op (.group hs) (.group ht)
  refine ⟨_, hts.bracketed ((hus.bracketed .done).operator op), by simpa using hderives, ?_⟩
  exact hfit.bracketed ((hfit'.bracketed integersFit_nil).cons (by simp))

theorem Phrase.neg (h : Phrase .primary cs e) : Phrase .comparison ('-' :: cs) (.neg e) := by
  obtain ⟨ts, hyields, hderives, hfit⟩ := h
  have hneg : Derives .comparison _ _ := (Derives.neg (hderives.of_primary .unary)).comparison
  exact ⟨_, hyields.minus, hneg, hfit.cons (by simp)⟩

theorem Phrase.call (hl : letters ≠ []) (hletters : ∀ c ∈ letters, Label.isLetter c = true)
    (h : ∀ x ∈ parts, Phrase .comparison x.1 x.2) :
    Phrase .primary (letters ++ '(' :: (listed (parts.map Prod.fst) ++ [')']))
      (.call (String.ofList (letters.map Char.toUpper)) (parts.map Prod.snd)) := by
  obtain ⟨args, hargs, hderives, hfit, hyields⟩ := exists_arguments h
  rw [← hargs]
  exact ⟨_, (hyields.bracketed .done).name hl hletters, .call hderives,
    (hfit.bracketed integersFit_nil).cons (by simp)⟩

end

/-- **Formulas are put together as texts.** A formula in brackets has its tree, two of them with an
operator between them have the operator's tree, with a minus before one it is negated, and formulas
with commas between them, in brackets after a name, are the arguments of a call. -/
theorem ofBody_compose {b c name : String} {s t : Expr} {parts : List (String × Expr)}
    (hb : ofBody b = .ok s) (hc : ofBody c = .ok t) (hparts : ∀ x ∈ parts, ofBody x.1 = .ok x.2)
    (hname : name ≠ "") (hletters : ∀ a ∈ name.toList, Label.isLetter a = true) :
    ofBody ("(" ++ b ++ ")") = .ok s ∧
      (∀ op : Operator, ofBody ("(" ++ b ++ ")" ++ op.symbol ++ "(" ++ c ++ ")") =
        .ok (.binary op s t)) ∧
      ofBody ("-(" ++ b ++ ")") = .ok (.neg s) ∧
      ofBody (name ++ "(" ++ ",".intercalate (parts.map Prod.fst) ++ ")") =
        .ok (.call (Text.upper name) (parts.map Prod.snd)) := by
  simp only [ofBody_eq_ok_iff_phrase] at hb hc hparts ⊢
  have hnil : name.toList ≠ [] := by simpa using hname
  have hupper : Text.upper name = String.ofList (name.toList.map Char.toUpper) := by
    rw [Text.upper, Label.upperList_of_isLetter hletters]
  refine ⟨?_, fun op => ?_, ?_, ?_⟩
  · simpa using hb.group.loosen
  · simpa using hb.binary hc op
  · simpa using hb.group.neg
  · rw [hupper]
    have hphrases : ∀ y ∈ parts.map fun x => (x.1.toList, x.2), Phrase .comparison y.1 y.2 :=
      List.forall_mem_map.mpr hparts
    have hcall := (Phrase.call hnil hletters hphrases).loosen
    simpa [listed, String.toList_intercalate, Function.comp_def] using hcall

theorem ofBody_compose_comparison :
    (ofBody "a1<2" = .ok (.binary .lt (.cell "A1") (.literal (.int 2))) ∧
      ofBody "-b2" = .ok (.neg (.cell "B2"))) ∧
    ofBody "(a1<2)" = .ok (.binary .lt (.cell "A1") (.literal (.int 2))) ∧
      (∀ op : Operator, ofBody ("(a1<2)" ++ op.symbol ++ "(-b2)") =
        .ok (.binary op (.binary .lt (.cell "A1") (.literal (.int 2))) (.neg (.cell "B2")))) ∧
      ofBody "-(a1<2)" = .ok (.neg (.binary .lt (.cell "A1") (.literal (.int 2)))) ∧
      ofBody "max(-b2,a1<2)" =
        .ok (.call "MAX" [.neg (.cell "B2"), .binary .lt (.cell "A1") (.literal (.int 2))]) := by
  have hb : ofBody "a1<2" = .ok (.binary .lt (.cell "A1") (.literal (.int 2))) := by rfl
  have hc : ofBody "-b2" = .ok (.neg (.cell "B2")) := by rfl
  obtain ⟨hgroup, hbinary, hneg, hcall⟩ := @ofBody_compose "a1<2" "-b2" "max" _ _
    [("-b2", _), ("a1<2", _)] hb hc
    (List.forall_mem_cons.mpr ⟨hc, List.forall_mem_singleton.mpr hb⟩) (by decide)
    (List.all_eq_true.mp rfl)
  refine ⟨⟨hb, hc⟩, hgroup, fun op => ?_, hneg, hcall⟩
  have h := hbinary op
  rwa [String.append_assoc, String.append_assoc, String.append_assoc, ← String.append_assoc] at h

end Formula

end Spreadsheet
