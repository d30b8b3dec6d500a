import Spreadsheet.Proofs.Formula.Beginnings
import Spreadsheet.Proofs.Formula.Scanning

/-! # Where a formula is refused

A text that the grammar refuses is refused at a position up to which it could still become a
formula: the text before it splits into tokens that begin one. It cannot go on as it does
(`Forced`): the tokens with the next one begin no formula, a numeral has more than one point, a
character starts no token, or the text ends too early.

Main statement: `refused_at`. -/

namespace Spreadsheet

open Token (Picks Starts NumeralRun isSpace)

/-! ### The tokens before a position -/

section

variable {after front rest word : List Char} {start : Nat} {t : Token} {p : Placed}
  {placed before behind : List Placed} {scan : Scan}

/-- What follows a text does not change the tokens inside it. -/
theorem Token.Picks.truncate {cs : List Char} (h : Picks word (cs ++ after) t) :
    Picks word cs t := by
  have hended {class' : Char → Bool} (hend : Token.Ended class' (cs ++ after)) :
      Token.Ended class' cs := by
    intro c hc
    obtain ⟨tail, rfl⟩ := List.head?_eq_some_iff.mp hc
    exact hend c rfl
  cases h with
  | cell hl hd hletters hdigits hend => exact .cell hl hd hletters hdigits (hended hend)
  | name hl hletters hend hno => exact .name hl hletters (hended hend) (hended hno)
  | number h hcount => exact .number ⟨h.starts, h.numeric, hended h.ended⟩ hcount
  | sign h hlongest =>
    refine .sign h fun x hx hfront => hlongest x hx (hfront.trans ?_)
    rw [← List.append_assoc]
    exact List.prefix_append _ _

theorem Reads.truncate {cs : List Char} (h : Reads after start cs placed) :
    Reads [] start cs placed := by
  induction h with
  | done => exact .done
  | space hc _ ih => exact .space hc ih
  | token ht _ ih =>
    refine .token ?_ ih
    rw [List.append_nil]
    exact ht.truncate

/-- **The text before a token** has the tokens before it, and the token is at the front of the
rest. -/
theorem Reads.split {cs : List Char} (h : Reads after start cs (before ++ p :: behind)) :
    ∃ front word rest, cs = front ++ (word ++ rest) ∧ p.start = start + front.length ∧
      Reads (word ++ rest ++ after) start front before ∧ Picks word (rest ++ after) p.token := by
  generalize htokens : before ++ p :: behind = placed at h
  induction h generalizing before with
  | done => simp at htokens
  | @space start c cs placed hc h ih =>
    obtain ⟨front, word, rest, rfl, hp, hreads, ht⟩ := ih htokens
    refine ⟨c :: front, word, rest, rfl, ?_, .space hc hreads, ht⟩
    rw [hp, List.length_cons, Nat.add_assoc, Nat.add_comm 1]
  | @token start word cs t placed ht h ih =>
    cases before with
    | nil =>
      obtain ⟨rfl, rfl⟩ := List.cons.inj htokens
      exact ⟨[], word, cs, rfl, rfl, .done, ht⟩
    | cons q before =>
      obtain ⟨rfl, hrest⟩ := List.cons.inj htokens
      obtain ⟨front, word', rest, rfl, hp, hreads, ht'⟩ := ih hrest
      refine ⟨word ++ front, word', rest, (List.append_assoc ..).symm, ?_, ?_, ht'⟩
      · rw [hp, List.length_append, Nat.add_assoc]
      · exact .token (by simpa using ht) hreads

/-- A text that is read to its end has just these tokens. -/
theorem tokenize_of_reads (h : Reads after 0 front placed) :
    tokenize (String.ofList front) = .ok placed := by
  have hscan : Scan.ofBody (String.ofList front) = ⟨placed, none⟩ := by
    rw [Scan.ofBody, String.toList_ofList]
    exact ofListFrom_eq_iff.mpr ⟨front, [], (List.append_nil front).symm, h.truncate, .ended⟩
  rw [tokenize_eq_ok, hscan]
  exact ⟨rfl, rfl⟩

end

namespace Formula

/-! ### Tokens that are refused -/

section

variable {s : State} {placed : List Placed} {fault : Fault}

/-- Reading tokens fails at one of them. -/
theorem foldlM_stepPlaced_error : ∀ {placed : List Placed} {s : State},
    placed.foldlM State.stepPlaced s = .error fault →
      ∃ before p behind t r, placed = before ++ p :: behind ∧
        (before.map Placed.token).foldlM State.step s = .ok t ∧ t.step p.token = .error r ∧
          fault = r.fault (.unexpectedToken p.token.text) p.start
  | [], _, h => by cases h
  | p :: placed, s, h => by
    rw [List.foldlM_cons, State.stepPlaced] at h
    cases hp : s.step p.token with
    | error r =>
      rw [hp] at h
      exact ⟨[], p, placed, s, r, rfl, rfl, hp, (Except.error.inj h).symm⟩
    | ok s' =>
      rw [hp] at h
      obtain ⟨before, q, behind, t, r, rfl, hfold, hq, hfault⟩ := foldlM_stepPlaced_error h
      refine ⟨p :: before, q, behind, t, r, rfl, ?_, hq, hfault⟩
      rw [List.map_cons, List.foldlM_cons, hp]
      exact hfold

/-- Only what comes unexpected has a place. -/
theorem Refusal.fault_eq_badSyntax {r : Refusal} {why reason : SyntaxError} {position p : Nat}
    (h : r.fault why position = .badSyntax reason p) :
    r = .unexpected ∧ why = reason ∧ position = p := by
  cases r with
  | unexpected => exact ⟨rfl, Fault.badSyntax.inj h⟩
  | numeralTooLong digits => cases h

end

/-! ### Whole texts -/

/-- **A text cannot go on at position `p`** as it does, `before` being the tokens before. -/
inductive Forced (body : String) (p : Nat) (before : List Token) : SyntaxError → Prop
  /-- The next token is one with which no formula begins. -/
  | token {word rest t} (hbody : body.toList.drop p = word ++ rest) (ht : Picks word rest t)
      (hno : ¬ Begins (before ++ [t])) : Forced body p before (.unexpectedToken t.text)
  /-- The next token would be a number, but has too many points to be one. -/
  | numeral {word rest} (hbody : body.toList.drop p = word ++ rest) (h : NumeralRun word rest)
      (hcount : 1 < word.count '.') (hno : ¬ Begins (before ++ [.number (String.ofList word)])) :
      Forced body p before (.invalidNumber (String.ofList word))
  /-- The next character is no blank and starts no token. -/
  | character {c rest} (hbody : body.toList.drop p = c :: rest) (hspace : isSpace c = false)
      (hno : ¬ Starts (c :: rest)) : Forced body p before (.unexpectedCharacter c)
  /-- The text ends, and its tokens are no formula. -/
  | ended {placed} (hp : p = body.length) (htokens : tokenize body = .ok placed)
      (hbefore : placed.map Placed.token = before) (hno : ¬ ∃ e, Derives .comparison before e) :
      Forced body p before .unexpectedEnd
  /-- The text is blank: there is no token in it, and no formula without tokens. -/
  | blank (hp : p = 0) (hblank : body.toList.all Text.isBlank = true) (hbefore : before = [])
      (hstarts : ∀ i, ¬ Starts (body.toList.drop i))
      (hno : ¬ ∃ e, Derives .comparison before e) : Forced body p before .unexpectedEnd

section

variable {body : String} {reason : SyntaxError} {p : Nat} {s : State}

theorem readable_of_subset {placed : List Placed} (h : placed ⊆ (Scan.ofBody body).tokens) :
    ∀ t ∈ placed.map Placed.token, Readable t :=
  List.forall_mem_map.mpr fun q hq => readable_of_mem_scan 0 0 body.toList q (h hq)

/-- The first token that is refused. -/
theorem refused_at_token {before behind : List Placed} {q : Placed}
    (htokens : (Scan.ofBody body).tokens = before ++ q :: behind)
    (hfold : (before.map Placed.token).foldlM State.step State.start = .ok s)
    (h : s.step q.token = .error .unexpected) :
    tokenize (String.ofList (body.toList.take q.start)) = .ok before ∧
      Begins (before.map Placed.token) ∧
        Forced body q.start (before.map Placed.token) (.unexpectedToken q.token.text) := by
  obtain ⟨front, rest, hbody, hreads, -⟩ := exists_reads body.toList 0
  rw [← Scan.ofBody, htokens] at hreads
  obtain ⟨first, word, more, rfl, hstart, hfirst, ht⟩ := hreads.split
  rw [Nat.zero_add] at hstart
  rw [List.append_assoc, List.append_assoc] at hbody
  have hsubset : before ⊆ (Scan.ofBody body).tokens := htokens ▸ List.subset_append_left ..
  refine ⟨?_, begins_of_foldlM (readable_of_subset hsubset) hfold, ?_⟩
  · rw [hbody, hstart, List.take_left]
    exact tokenize_of_reads hfirst
  · exact .token (by rw [hbody, hstart, List.drop_left]) ht (not_begins_of_refused hfold h)

/-- A place where no token is at the front, the tokens before it having been taken. -/
theorem refused_at_stop (hfault : (Scan.ofBody body).fault = some (.badSyntax reason p))
    (hfold : ((Scan.ofBody body).tokens.map Placed.token).foldlM State.step State.start = .ok s) :
    tokenize (String.ofList (body.toList.take p)) = .ok (Scan.ofBody body).tokens ∧
      Begins ((Scan.ofBody body).tokens.map Placed.token) ∧
        Forced body p ((Scan.ofBody body).tokens.map Placed.token) reason := by
  obtain ⟨front, rest, hbody, hreads, hhalts⟩ := exists_reads body.toList 0
  rw [← Scan.ofBody] at hreads hhalts
  rw [hfault, Nat.zero_add] at hhalts
  obtain ⟨hp, hstop⟩ : p = front.length ∧ Stops rest reason := by
    cases hhalts with
    | fault hstop => exact ⟨rfl, hstop⟩
  refine ⟨?_, begins_of_foldlM (readable_of_subset (List.Subset.refl _)) hfold, ?_⟩
  · rw [hbody, hp, List.take_left]
    exact tokenize_of_reads hreads
  · have hdrop : body.toList.drop p = rest := by rw [hbody, hp, List.drop_left]
    cases hstop with
    | character hspace hno => exact .character hdrop hspace hno
    | numeral hrun hcount =>
      have hnone := not_denotes_of_count hrun.numeric hcount
      exact .numeral hdrop hrun hcount (not_begins_of_not_denotes hnone)

/-- The end of a text whose tokens have all been taken. -/
theorem refused_at_end (hfault : (Scan.ofBody body).fault = none)
    (hfold : ((Scan.ofBody body).tokens.map Placed.token).foldlM State.step State.start = .ok s)
    (h : s.finish = .error .unexpected) :
    tokenize (String.ofList (body.toList.take body.length)) = .ok (Scan.ofBody body).tokens ∧
      Begins ((Scan.ofBody body).tokens.map Placed.token) ∧
        Forced body body.length ((Scan.ofBody body).tokens.map Placed.token) .unexpectedEnd := by
  have htokens : tokenize body = .ok (Scan.ofBody body).tokens := tokenize_eq_ok.mpr ⟨hfault, rfl⟩
  refine ⟨?_, begins_of_foldlM (readable_of_subset (List.Subset.refl _)) hfold, ?_⟩
  · rwa [← String.length_toList, List.take_length, String.ofList_toList]
  · exact .ended rfl htokens rfl (not_derives_of_refused hfold h)

/-- No token is in a blank text. -/
theorem not_starts_of_blank {cs : List Char} (h : cs.all Text.isBlank = true) (i : Nat) :
    ¬ Starts (cs.drop i) := by
  refine Token.front_eq_stray_iff.mp ?_
  cases hdrop : cs.drop i with
  | nil => rfl
  | cons c rest =>
    have hc : c ∈ cs := List.mem_of_mem_drop (hdrop ▸ List.mem_cons_self)
    exact front_blank rest (List.all_eq_true.mp h c hc)

end

/-- **The position of a fault is exact.** Up to there the text could become a formula: it splits
into tokens that begin one. As it goes on from there, it cannot. -/
theorem refused_at {body : String} {reason : SyntaxError} {p : Nat}
    (h : ofBody body = .error (.badSyntax reason p)) :
    ∃ before, tokenize (String.ofList (body.toList.take p)) = .ok before ∧
      Begins (before.map Placed.token) ∧ Forced body p (before.map Placed.token) reason := by
  unfold ofBody at h
  split_ifs at h with hblank
  · obtain ⟨rfl, rfl⟩ := Fault.badSyntax.inj (Except.error.inj h)
    exact ⟨[], rfl, begins_of_foldlM (s := State.start) (by simp) rfl,
      .blank rfl hblank rfl (not_starts_of_blank hblank) (not_derives_of_refused rfl rfl)⟩
  unfold ofScan at h
  cases hfold : (Scan.ofBody body).tokens.foldlM State.stepPlaced State.start with
  | error fault =>
    rw [hfold] at h
    obtain ⟨before, q, behind, t, r, htokens, hbefore, hstep, hfault⟩ :=
      foldlM_stepPlaced_error hfold
    obtain ⟨rfl, rfl, rfl⟩ :=
      Refusal.fault_eq_badSyntax (hfault.symm.trans (Except.error.inj h))
    exact ⟨before, refused_at_token htokens hbefore hstep⟩
  | ok s =>
    rw [hfold] at h
    have hfold := foldlM_stepPlaced.mp hfold
    refine ⟨(Scan.ofBody body).tokens, ?_⟩
    cases hfault : (Scan.ofBody body).fault with
    | some fault =>
      rw [hfault] at h
      obtain rfl := Except.error.inj h
      exact refused_at_stop hfault hfold
    | none =>
      rw [hfault] at h
      change s.finish.mapError _ = Except.error (Fault.badSyntax reason p) at h
      cases hfinish : s.finish with
      | ok e => rw [hfinish] at h; cases h
      | error r =>
        rw [hfinish] at h
        obtain ⟨rfl, rfl, rfl⟩ := Refusal.fault_eq_badSyntax (Except.error.inj h)
        exact refused_at_end hfault hfold hfinish

theorem refused_at_operator :
    ofBody "sum(a1, 2 * / b2" = .error (.badSyntax (.unexpectedToken "/") 12) ∧
      ∃ before, tokenize (String.ofList ("sum(a1, 2 * / b2".toList.take 12)) = .ok before ∧
        Begins (before.map Placed.token) ∧
          Forced "sum(a1, 2 * / b2" 12 (before.map Placed.token) (.unexpectedToken "/") :=
  have h : ofBody "sum(a1, 2 * / b2" = .error (.badSyntax (.unexpectedToken "/") 12) := by rfl
  ⟨h, refused_at h⟩

end Formula

end Spreadsheet
