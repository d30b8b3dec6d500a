import Spreadsheet.Proofs.Formula.Direct
import Spreadsheet.Proofs.Session.RecursiveWalk

/-! # Sessions over direct formulas

If the formulas of a sheet are direct, and none of them fails, reading ahead only anticipates the
plain walk: both find the same values and close the same cycles (`readNested_of_direct`).

* `leads_of_expands`: the references collected from a tree, each text once, lead the references in
  the tree. -/

namespace Spreadsheet.Session

open Reference (Expands)

variable {seen seen' : String → Prop} {labels ls asks : List String}

theorem Leads.mono (hle : ∀ l, seen l → seen' l) (h : Leads seen ls asks) :
    Leads seen' ls asks := by
  induction h generalizing seen' with
  | done => exact .done
  | skip hl _ ih => exact .skip (hle _ hl) (ih hle)
  | pass hl _ ih => exact .pass (hle _ hl) (ih hle)
  | both _ ih => exact .both (ih fun m => Or.imp_right (hle m))

theorem Leads.append_right (h : Leads seen ls asks) (more : List String) :
    Leads seen ls (asks ++ more) := by
  induction h with
  | done => exact .done
  | skip hl _ ih => exact .skip hl ih
  | pass hl _ ih => exact .pass hl ih
  | both _ ih => exact .both ih

theorem Leads.pass_all (h : Leads seen ls asks) : ∀ {labels : List String},
    (∀ l ∈ labels, seen l) → Leads seen ls (labels ++ asks)
  | [], _ => h
  | l :: labels, hl => .pass (hl l (by simp)) (h.pass_all fun m hm => hl m (by simp [hm]))

theorem Leads.both_all : ∀ {labels : List String} {seen : String → Prop},
    Leads (fun m => m ∈ labels ∨ seen m) ls asks → Leads seen (labels ++ ls) (labels ++ asks)
  | [], _, h => h.mono fun m hm => hm.resolve_left List.not_mem_nil
  | l :: labels, seen, h => by
    refine .both (Leads.both_all (h.mono fun m hm => ?_))
    rcases hm with hm | hm
    · exact (List.mem_cons.mp hm).elim (fun he => Or.inr (Or.inl he)) Or.inl
    · exact Or.inr (Or.inr hm)

/-- **What is collected leads what is asked for**: a reference that is dropped, since one of its
text has been met, stands for cells that have been asked for. -/
theorem leads_of_expands {rs : List Reference} (h : Expands rs asks) :
    ∀ (met : List Reference) (seen : String → Prop),
      (∀ r ∈ met, ∀ labels, r.labels = .ok labels → ∀ l ∈ labels, seen l) →
      (∀ r ∈ met ++ rs, ∀ r' ∈ met ++ rs, r.text = r'.text → r.labels = r'.labels) →
      ∃ new, rs.foldl Reference.addTo met = met ++ new ∧
        ∀ {ahead}, expand new = .ok ahead → Leads seen ahead asks := by
  induction h with
  | nil =>
    intro met seen _ _
    refine ⟨[], (List.append_nil met).symm, fun h => ?_⟩
    cases h
    exact .done
  | @cons r rs labels rest hr _ ih =>
    intro met seen hmet htext
    rw [List.foldl_cons]
    by_cases hold : met.any (·.text == r.text) = true
    · rw [Reference.addTo, if_pos hold]
      obtain ⟨new, hnew, hleads⟩ := ih met seen hmet fun a ha b hb =>
        htext a (by simp at ha ⊢; tauto) b (by simp at hb ⊢; tauto)
      refine ⟨new, hnew, fun h => (hleads h).pass_all ?_⟩
      obtain ⟨y, hy, hyr⟩ := List.any_eq_true.mp hold
      have hlabels := htext y (by simp [hy]) r (by simp) (beq_iff_eq.mp hyr)
      exact hmet y hy labels (hlabels.trans hr)
    · rw [Reference.addTo, if_neg hold]
      obtain ⟨new, hnew, hleads⟩ := ih (met ++ [r]) (fun m => m ∈ labels ∨ seen m)
        (fun a ha ls hls l hl => by
          rcases List.mem_append.mp ha with ha | ha
          · exact Or.inr (hmet a ha ls hls l hl)
          · obtain rfl := List.mem_singleton.mp ha
            obtain rfl := Except.ok.inj (hr.symm.trans hls)
            exact Or.inl hl)
        (by simpa using htext)
      refine ⟨r :: new, by rw [hnew]; simp, fun h => ?_⟩
      rw [expand, hr] at h
      cases hrest : expand new with
      | error f => rw [hrest] at h; cases h
      | ok ahead' =>
        rw [hrest] at h
        obtain rfl := Except.ok.inj h
        exact (hleads hrest).both_all

variable {sheet : Sheet} {s : State}

/-- **A direct formula that comes to a value asks first for what is read ahead.** -/
theorem leads_of_direct (hfit : sheet.NumeralsFit) {c : String}
    (hc : sheet.source.HasFormula c) {e : Expr}
    (he : Formula.ofText (formulaAt sheet.source c) = .ok e) (hdirect : e.Direct)
    {known : Knowledge} {v : Scalar} (h : (sheet.source.inquiry c).resolve known = some (.ok v)) :
    Leads seen (sheet.source.ahead c) ((sheet.source.inquiry c).asked known) := by
  obtain ⟨x, hx, hv⟩ := resolve_inquiry h
  rw [Formula.inquiry_of_tree he] at hx
  rw [asked_inquiry, Formula.inquiry_of_tree he]
  have hplain := (hfit.wellParsed c hc e he).plainCells
  cases x with
  | error f => cases hv
  | ok w =>
    obtain ⟨labels, more, hexpands, hasked⟩ := hdirect.asked hx
    obtain ⟨new, hnew, hleads⟩ := leads_of_expands hexpands [] seen
      (fun r hr => absurd hr List.not_mem_nil) fun r hr r' hr' htext =>
        hplain.labels_eq_of_text (Expr.mem_mentions_of_mem_eagerMentions hr)
          (Expr.mem_mentions_of_mem_eagerMentions hr') htext
    have hahead : expand new = .ok (sheet.source.ahead c) := by
      have h := hfit.regular.dependencies c hc
      unfold dependencies at h
      rw [he] at h
      dsimp only at h
      rw [Expr.eagerReferences, Expr.collect_eq_foldl, List.flatMap_singleton] at h
      rw [Expr.eagerMentions, List.nil_append] at hnew
      rwa [hnew] at h
    rw [hasked]
    exact (hleads hahead).append_right more

/-- **Over direct formulas that do not fail, the plain walk does the same**, whatever cycles there
are. -/
theorem readNested_of_direct (hfit : sheet.NumeralsFit)
    (hdirect : ∀ c, sheet.source.HasFormula c →
      ∃ e, Formula.ofText (formulaAt sheet.source c) = .ok e ∧ e.Direct)
    {labels : List String} {vs : List Scalar} (h : ReadIn (read sheet.source) labels vs s)
    (hfault : ∀ c f, s.errors.get? c ≠ some (.fault f)) :
    ∃ t, ReadIn (readNested sheet.source) labels vs t ∧
      ∀ c, t.errors.get? c = s.errors.get? c := by
  obtain ⟨vs', s', hv, hvs, ha⟩ := readIn_answers (read_does hfit.regular) labels
  obtain ⟨ws, t, hw, hws, ht⟩ := readIn_answers (readNested_does hfit.regular) labels
  obtain ⟨hvs', rfl⟩ := Prod.mk.inj (hvs.symm.trans h)
  obtain rfl := Except.ok.inj hvs'
  have hs := (ha.sound (sound_empty _)).1
  have hfirst : AsksAheadFirst sheet.source s' := by
    intro c hc
    obtain ⟨e, he, hdirect⟩ := hdirect c hc.1
    obtain ⟨v, r, -, hr, hrecorded⟩ := hs.answered hc
    have hok : ∃ w, r = .ok w := by
      rcases hget : s'.errors.get? c with _ | _ | f
      · rw [hget] at hrecorded
        exact ⟨v, hrecorded⟩
      · rw [hget] at hrecorded
        exact hrecorded.1
      · exact absurd hget (hfault c f)
    obtain ⟨w, rfl⟩ := hok
    exact leads_of_direct hfit hc.1 he hdirect hr
  obtain ⟨rfl, herrors⟩ := plain_of_asksAheadFirst ha ht (by rw [hv, List.length_map])
    (by rw [hw, List.length_map]) hfirst
  exact ⟨t, hws, herrors⟩

end Spreadsheet.Session
