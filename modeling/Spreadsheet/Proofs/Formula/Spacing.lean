import Spreadsheet.Proofs.Formula.Positions

/-! # Spacing and case

Where a token ends is told by its own characters and the one after it, and not by the case of
letters. So the tokens of a text stay what they are when letters change their case and blanks are
put around tokens (`Picks.respell`): the text in its new form has the same tokens in the same order,
and the same tree or none (`tokenize_respelt`).

* `Yields`: the tokens of a text without their positions.
* `Respelt`: a text in other letters and with more blanks. -/

namespace Spreadsheet

open Token (Picks Ended isSpace)

/-! ### Characters in either case -/

namespace Token

/-- The class does not tell letters by their case. -/
def CaseFree (p : Char → Bool) : Prop :=
  ∀ c d : Char, d.toUpper = c.toUpper → p d = p c

/-- The character goes on no token. -/
def Divides (c : Char) : Prop :=
  Label.isLetter c = false ∧ isNumeric c = false ∧ c ≠ '='

/-- A token that ends before the first text ends before the second: this starts with a character
that goes on no token, or with the one that the first starts with, in either case. -/
def Follows (rest rest' : List Char) : Prop :=
  ∀ d ∈ rest'.head?, Divides d ∨ ∃ c ∈ rest.head?, d.toUpper = c.toUpper

section

variable {c d : Char} {p : Char → Bool} {cs ds rest rest' word word' : List Char} {t : Token}

theorem caseFree_isLetter : CaseFree Label.isLetter := fun c d h => by
  rw [← Label.isLetter_toUpper, h, Label.isLetter_toUpper]

/-- Only letters have a case. -/
theorem eq_of_toUpper (h : d.toUpper = c.toUpper) (hc : Label.isLetter c = false) : d = c := by
  have hself {c : Char} (hc : Label.isLetter c = false) : c.toUpper = c :=
    (Label.toUpper_eq_or c).resolve_left (by simp [hc])
  have hd : Label.isLetter d = false := (caseFree_isLetter c d h).trans hc
  rw [← hself hd, h, hself hc]

theorem caseFree_of_not_letter (h : ∀ c, p c = true → Label.isLetter c = false) : CaseFree p := by
  intro c d hcd
  cases hc : Label.isLetter c with
  | false => rw [eq_of_toUpper hcd hc]
  | true =>
    have hd : Label.isLetter d = true := (caseFree_isLetter c d hcd).trans hc
    have hnot {a : Char} (ha : Label.isLetter a = true) : p a = false :=
      Bool.eq_false_iff.mpr fun hp => by simp [h a hp] at ha
    rw [hnot hc, hnot hd]

theorem caseFree_isAsciiDigit : CaseFree Decimal.isAsciiDigit :=
  caseFree_of_not_letter fun _ => isLetter_of_isAsciiDigit

theorem isLetter_of_isNumeric (h : isNumeric c = true) : Label.isLetter c = false := by
  rcases Bool.or_eq_true_iff.mp h with h | h
  · exact isLetter_of_isAsciiDigit h
  · obtain rfl := of_decide_eq_true h
    rfl

theorem caseFree_isNumeric : CaseFree isNumeric :=
  caseFree_of_not_letter fun _ => isLetter_of_isNumeric

theorem CaseFree.forall_mem (hp : CaseFree p) (h : ds.map Char.toUpper = cs.map Char.toUpper)
    (hcs : ∀ c ∈ cs, p c = true) : ∀ d ∈ ds, p d = true := by
  intro d hd
  have hmem : d.toUpper ∈ cs.map Char.toUpper := h ▸ List.mem_map_of_mem hd
  obtain ⟨c, hc, hcd⟩ := List.mem_map.mp hmem
  exact (hp c d hcd.symm).trans (hcs c hc)

theorem eq_of_map_toUpper : ∀ {cs ds : List Char}, ds.map Char.toUpper = cs.map Char.toUpper →
    (∀ c ∈ cs, Label.isLetter c = false) → ds = cs
  | [], _, h, _ => List.map_eq_nil_iff.mp h
  | c :: cs, [], h, _ => by cases h
  | c :: cs, d :: ds, h, hcs => by
    obtain ⟨hd, hds⟩ := List.cons.inj h
    rw [eq_of_toUpper hd (hcs c List.mem_cons_self),
      eq_of_map_toUpper hds fun a ha => hcs a (List.mem_cons_of_mem c ha)]

/-! ### Tokens in another form -/

theorem divides_of_isSpace (h : isSpace c = true) : Divides c := by
  simp only [isSpace, Bool.or_eq_true, decide_eq_true_eq] at h
  rcases h with (((rfl | rfl) | rfl) | rfl) | rfl <;> exact ⟨rfl, rfl, by decide⟩

/-- The same text follows as before, if need be with a divider at its end. -/
theorem follows_append {after : List Char} (h : ∀ d ∈ after.head?, Divides d) (rest : List Char) :
    Follows rest (rest ++ after) := by
  intro d hd
  cases rest with
  | nil => exact Or.inl (h d hd)
  | cons c rest => exact Or.inr ⟨d, hd, rfl⟩

theorem Ended.follows (hend : Ended p rest) (hp : CaseFree p) (hdiv : ∀ c, Divides c → p c = false)
    (h : Follows rest rest') : Ended p rest' := by
  intro d hd
  rcases h d hd with hd | ⟨c, hc, hcd⟩
  · exact hdiv d hd
  · exact (hp c d hcd).trans (hend c hc)

theorem isAsciiDigit_of_divides (h : Divides c) : Decimal.isAsciiDigit c = false :=
  (Bool.or_eq_false_iff.mp h.2.1).1

theorem not_letter_of_signs : ∀ x ∈ signs, ∀ c ∈ x.1, Label.isLetter c = false := by
  have hall : (signs.all fun x => x.1.all fun c => !Label.isLetter c) = true := rfl
  simpa using hall

theorem tail_of_signs : ∀ x ∈ signs, x.1.tail = [] ∨ x.1.tail = ['='] := by decide

/-- Where no longer sign was at the front before, there is none. -/
theorem length_le_of_follows (hne : word ≠ []) (hrest : Follows rest rest')
    (hlongest : ∀ x ∈ signs, x.1 <+: word ++ rest → x.1.length ≤ word.length) :
    ∀ x ∈ signs, x.1 <+: word ++ rest' → x.1.length ≤ word.length := by
  intro x hx hfront
  by_contra hlt
  obtain ⟨c, word, rfl⟩ := List.exists_cons_of_ne_nil hne
  obtain ⟨d, more, hmore⟩ := List.exists_cons_of_ne_nil (fun h : x.1 = [] => by simp [h] at hlt)
  -- the sign is one character, then an equals sign that the rest starts with
  have htail : more = ['='] := by
    have := tail_of_signs x hx
    rw [hmore] at this hlt
    rcases this with rfl | rfl
    · simp at hlt
    · rfl
  subst htail
  rw [hmore, List.length_cons, List.length_cons, List.length_cons, List.length_nil] at hlt
  obtain rfl : word = [] := List.length_eq_zero_iff.mp (by omega)
  rw [hmore, List.singleton_append, List.cons_prefix_cons] at hfront
  obtain ⟨rfl, tail, rfl⟩ := hfront
  obtain ⟨-, -, hne⟩ | ⟨e, he, heq⟩ := hrest '=' rfl
  · exact hne rfl
  · obtain ⟨tail, rfl⟩ := List.head?_eq_some_iff.mp he
    obtain rfl : '=' = e := (eq_of_toUpper heq.symm rfl).symm
    have := hlongest x hx (by rw [hmore]; exact ⟨tail, rfl⟩)
    simp [hmore] at this

/-- **A token is picked** also in letters of the other case, and before whatever ends it. -/
theorem Picks.respell (h : Picks word rest t)
    (hword : word'.map Char.toUpper = word.map Char.toUpper)
    (hrest : Follows rest rest') : Picks word' rest' t := by
  have hdigits {rest} (hend : Ended Decimal.isAsciiDigit rest) (h : Follows rest rest') :
      Ended Decimal.isAsciiDigit rest' :=
    hend.follows caseFree_isAsciiDigit (fun _ => isAsciiDigit_of_divides) h
  cases h with
  | @cell letters digits _ hl hd hletters hdigits' hend =>
    obtain ⟨front, back, rfl, hfront, hback⟩ :=
      List.map_eq_append_iff.mp (hword.trans List.map_append)
    have hne {xs ys : List Char} (h : xs.map Char.toUpper = ys.map Char.toUpper) (hy : ys ≠ []) :
        xs ≠ [] := by
      rintro rfl
      exact hy (List.map_eq_nil_iff.mp h.symm)
    rw [← hword]
    exact .cell (hne hfront hl) (hne hback hd) (caseFree_isLetter.forall_mem hfront hletters)
      (caseFree_isAsciiDigit.forall_mem hback hdigits') (hdigits hend hrest)
  | name hl hletters hend hno =>
    rw [← hword]
    refine .name ?_ (caseFree_isLetter.forall_mem hword hletters) ?_ (hdigits hno hrest)
    · rintro rfl
      exact hl (List.map_eq_nil_iff.mp hword.symm)
    · exact hend.follows caseFree_isLetter (fun _ hd => hd.1) hrest
  | number h hcount =>
    obtain rfl := eq_of_map_toUpper hword fun c hc => isLetter_of_isNumeric (h.numeric c hc)
    exact .number ⟨h.starts, h.numeric,
      h.ended.follows caseFree_isNumeric (fun _ hd => hd.2.1) hrest⟩ hcount
  | sign hmem hlongest =>
    obtain rfl := eq_of_map_toUpper hword (not_letter_of_signs _ hmem)
    exact .sign hmem (length_le_of_follows (Picks.sign hmem hlongest).ne_nil hrest hlongest)

end

end Token

/-! ### Texts without positions -/

/-- **The tokens of a text** that `after` follows. -/
inductive Yields (after : List Char) : List Char → List Token → Prop
  | done : Yields after [] []
  | space {c cs ts} (hc : isSpace c = true) (h : Yields after cs ts) : Yields after (c :: cs) ts
  | token {word cs t ts} (ht : Picks word (cs ++ after) t) (h : Yields after cs ts) :
      Yields after (word ++ cs) (t :: ts)

section

variable {after cs : List Char} {ts : List Token} {start : Nat} {placed : List Placed}
  {body : String}

theorem Reads.yields (h : Reads after start cs placed) :
    Yields after cs (placed.map Placed.token) := by
  induction h with
  | done => exact .done
  | space hc _ ih => exact .space hc ih
  | token ht _ ih => exact .token ht ih

theorem Yields.exists_reads (h : Yields after cs ts) (start : Nat) :
    ∃ placed, Reads after start cs placed ∧ placed.map Placed.token = ts := by
  induction h generalizing start with
  | done => exact ⟨[], .done, rfl⟩
  | space hc _ ih =>
    obtain ⟨placed, h, rfl⟩ := ih (start + 1)
    exact ⟨placed, .space hc h, rfl⟩
  | @token word _ t _ ht _ ih =>
    obtain ⟨placed, h, rfl⟩ := ih (start + word.length)
    exact ⟨⟨t, start⟩ :: placed, .token ht h, rfl⟩

theorem tokenize_ok_iff_reads : tokenize body = .ok placed ↔ Reads [] 0 body.toList placed := by
  rw [tokenize_ok_iff_tiles, ← String.length_toList]
  simpa using (reads_iff_tiles [] body.toList [] placed).symm

theorem exists_tokenize_iff : (∃ placed, tokenize body = .ok placed ∧
    placed.map Placed.token = ts) ↔ Yields [] body.toList ts := by
  simp only [tokenize_ok_iff_reads]
  exact ⟨fun ⟨_, h, hts⟩ => hts ▸ h.yields, fun h => h.exists_reads 0⟩

end

/-! ### Other letters and more blanks -/

/-- **The text in other letters and with more blanks**: `cs'` is the text `cs`, which starts at
position `start`, with each of its tokens in letters of either case and with blanks put in around
them. -/
inductive Respelt : Nat → List Placed → List Char → List Char → Prop
  | done {start} : Respelt start [] [] []
  | inserted {start placed c cs cs'} (hc : isSpace c = true) (h : Respelt start placed cs cs') :
      Respelt start placed cs (c :: cs')
  | kept {start placed c cs cs'} (hc : isSpace c = true) (h : Respelt (start + 1) placed cs cs') :
      Respelt start placed (c :: cs) (c :: cs')
  | token {p placed word word' cs cs'} (hlen : word.length = p.token.text.length)
      (hword : word'.map Char.toUpper = word.map Char.toUpper)
      (h : Respelt p.stop placed cs cs') :
      Respelt p.start (p :: placed) (word ++ cs) (word' ++ cs')

section

variable {after cs cs' word : List Char} {c : Char} {start : Nat} {p : Placed}
  {placed placed' : List Placed} {body body' : String} {e : Expr}

theorem Reads.start_le (h : Reads after start cs placed) : ∀ p ∈ placed, start ≤ p.start := by
  induction h with
  | done => simp
  | space _ _ ih => exact fun p hp => Nat.le_of_succ_le (ih p hp)
  | token _ _ ih =>
    exact List.forall_mem_cons.mpr ⟨le_rfl, fun p hp => Nat.le_of_add_right_le (ih p hp)⟩

theorem Reads.of_space (h : Reads after start (c :: cs) placed) (hc : isSpace c = true) :
    Reads after (start + 1) cs placed := by
  generalize htext : c :: cs = text at h
  cases h with
  | done => cases htext
  | space _ h =>
    obtain ⟨-, rfl⟩ := List.cons.inj htext
    exact h
  | token ht _ =>
    obtain ⟨d, tail, rfl, hd⟩ := ht.exists_cons
    obtain ⟨rfl, -⟩ := List.cons.inj htext
    cases hc.symm.trans hd

/-- The token at the start of a text. -/
theorem Reads.of_token (h : Reads after p.start (word ++ cs) (p :: placed))
    (hlen : word.length = p.token.text.length) :
    Picks word (cs ++ after) p.token ∧ Reads after p.stop cs placed := by
  generalize htext : word ++ cs = text, hstart : p.start = start at h
  cases h with
  | space _ h =>
    have hle := h.start_le p List.mem_cons_self
    omega
  | @token _ word₀ _ _ _ ht h =>
    obtain ⟨rfl, rfl⟩ := List.append_inj htext (hlen.trans ht.length_eq)
    rw [← ht.length_eq] at h
    exact ⟨ht, h⟩

theorem Respelt.follows (hr : Respelt start placed cs cs') (h : Reads [] start cs placed) :
    Token.Follows cs cs' := by
  intro d hd
  cases hr with
  | done => exact Or.inr ⟨d, hd, rfl⟩
  | inserted hc =>
    obtain rfl := Option.some.inj hd
    exact Or.inl (Token.divides_of_isSpace hc)
  | kept => exact Or.inr ⟨d, hd, rfl⟩
  | token hlen hword =>
    obtain ⟨c, word, rfl, -⟩ := (h.of_token hlen).1.exists_cons
    obtain ⟨c', word', rfl, hc, -⟩ := List.map_eq_cons_iff.mp hword
    obtain rfl := Option.some.inj hd
    exact Or.inr ⟨c, rfl, hc⟩

/-- The induction is on the text in its new form. -/
theorem Reads.respell (h : Reads [] start cs placed) (hr : Respelt start placed cs cs') :
    Yields [] cs' (placed.map Placed.token) := by
  induction hr with
  | done => exact .done
  | inserted hc _ ih => exact .space hc (ih h)
  | kept hc _ ih => exact .space hc (ih (h.of_space hc))
  | @token p placed word word' cs cs' hlen hword hr ih =>
    obtain ⟨ht, hrest⟩ := h.of_token hlen
    refine .token (ht.respell hword ?_) (ih hrest)
    simpa using hr.follows hrest

/-- Only the tokens of a text decide on its tree. -/
theorem ofBody_congr (h : tokenize body = .ok placed) (h' : tokenize body' = .ok placed')
    (htokens : placed'.map Placed.token = placed.map Placed.token) :
    Formula.ofBody body' = .ok e ↔ Formula.ofBody body = .ok e := by
  rw [Formula.ofBody_eq_ok, Formula.ofBody_eq_ok, h, h']
  simp [htokens]

end

/-- **Spacing and case do not change a formula.** With letters in either case, and with blanks
before, between and after its tokens, a text has the tokens that it had. It has the tree that it
had, or none if it had none. -/
theorem tokenize_respelt {body body' : String} {placed : List Placed}
    (h : tokenize body = .ok placed) (hr : Respelt 0 placed body.toList body'.toList) :
    ∃ placed', tokenize body' = .ok placed' ∧
      placed'.map Placed.token = placed.map Placed.token ∧
        ∀ e, Formula.ofBody body' = .ok e ↔ Formula.ofBody body = .ok e := by
  obtain ⟨placed', h', htokens⟩ :=
    exists_tokenize_iff.mpr ((tokenize_ok_iff_reads.mp h).respell hr)
  exact ⟨placed', h', htokens, fun _ => ofBody_congr h h' htokens⟩

theorem tokenize_respelt_comparison :
    tokenize "a1>=.5*b" = .ok [⟨.cell "A1", 0⟩, ⟨.op .ge, 2⟩, ⟨.number ".5", 4⟩, ⟨.op .mul, 6⟩,
        ⟨.name "B", 7⟩] ∧
      ∃ placed', tokenize "A1\t>= .5*B\n" = .ok placed' ∧
        placed'.map Placed.token = [.cell "A1", .op .ge, .number ".5", .op .mul, .name "B"] ∧
          ∀ e, Formula.ofBody "A1\t>= .5*B\n" = .ok e ↔ Formula.ofBody "a1>=.5*b" = .ok e := by
  have h : tokenize "a1>=.5*b" = .ok [⟨.cell "A1", 0⟩, ⟨.op .ge, 2⟩, ⟨.number ".5", 4⟩,
      ⟨.op .mul, 6⟩, ⟨.name "B", 7⟩] := by decide
  refine ⟨h, tokenize_respelt h ?_⟩
  refine @Respelt.token ⟨.cell "A1", 0⟩ _ ['a', '1'] ['A', '1'] _ _ rfl rfl (.inserted rfl ?_)
  refine @Respelt.token ⟨.op .ge, 2⟩ _ ['>', '='] ['>', '='] _ _ rfl rfl (.inserted rfl ?_)
  refine @Respelt.token ⟨.number ".5", 4⟩ _ ['.', '5'] ['.', '5'] _ _ rfl rfl ?_
  refine @Respelt.token ⟨.op .mul, 6⟩ _ ['*'] ['*'] _ _ rfl rfl ?_
  exact @Respelt.token ⟨.name "B", 7⟩ _ ['b'] ['B'] _ _ rfl rfl (.inserted rfl .done)

end Spreadsheet
