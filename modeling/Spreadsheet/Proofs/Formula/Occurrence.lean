import Spreadsheet.Formula.Reference
import Spreadsheet.Proofs.Formula.Inquiry

/-! # Where references stand

The references of a tree with their repetitions, in the order in which they stand in it
(`occurrences`). The walk that collects the references drops the later ones of equal text
(`collect_eq_foldl`).

* `Unbranched`: no reference stands in a branch of `IF`.
* `asksOnly_evaluate`: a tree asks only for cells of its occurrences.
* `meets_evaluate`: a tree that is evaluated without fault has asked for all cells of the
  occurrences that are visited whatever the conditions say. -/

namespace Spreadsheet

/-- What is there already may be left out, up to repetitions. -/
theorem eraseDups_append_of_subset {before here : List String} (rest : List String)
    (h : here ⊆ before) : (before ++ (here ++ rest)).eraseDups = (before ++ rest).eraseDups := by
  have hnone : here.filter (fun l => !before.elem l) = [] :=
    List.filter_eq_nil_iff.mpr fun l hl => by simpa using h hl
  have hremove : (here ++ rest).removeAll before = rest.removeAll before := by
    simp only [List.removeAll, List.filter_append, hnone, List.nil_append]
  rw [List.eraseDups_append, List.eraseDups_append, hremove]

namespace Reference

/-- The reference stands for a rectangle that holds the cell. -/
def Covers (r : Reference) (label : String) : Prop :=
  ∃ labels, r.labels = .ok labels ∧ label ∈ labels

theorem mem_addTo {met : List Reference} {r x : Reference} :
    x ∈ addTo met r ↔ x ∈ met ∨ (x = r ∧ ∀ y ∈ met, y.text ≠ r.text) := by
  unfold addTo
  split_ifs with h
  · obtain ⟨y, hy, hyr⟩ := List.any_eq_true.mp h
    refine ⟨Or.inl, ?_⟩
    rintro (hx | ⟨-, hne⟩)
    · exact hx
    · exact absurd (by simpa using hyr) (hne y hy)
  · simp only [List.mem_append, List.mem_singleton]
    refine or_congr_right ⟨fun hx => ⟨hx, fun y hy he => h ?_⟩, And.left⟩
    exact List.any_eq_true.mpr ⟨y, hy, by simpa using he⟩

theorem addTo_of_mem {met : List Reference} {r : Reference} (h : r.text ∈ met.map text) :
    addTo met r = met := by
  obtain ⟨y, hy, hyr⟩ := List.mem_map.mp h
  exact if_pos (List.any_eq_true.mpr ⟨y, hy, by simpa using hyr⟩)

theorem addTo_of_not_mem {met : List Reference} {r : Reference} (h : r.text ∉ met.map text) :
    addTo met r = met ++ [r] := by
  refine if_neg fun hthere => h ?_
  obtain ⟨y, hy, hyr⟩ := List.any_eq_true.mp hthere
  exact List.mem_map.mpr ⟨y, hy, by simpa using hyr⟩

/-- **References added one after the other** have the texts of all of them, each once. -/
theorem map_text_foldl_addTo (l met : List Reference)
    (honce : (met.map text).eraseDups = met.map text) :
    (l.foldl addTo met).map text = (met.map text ++ l.map text).eraseDups := by
  induction l generalizing met with
  | nil => rw [List.foldl_nil, List.map_nil, List.append_nil, honce]
  | cons r l ih =>
    rw [List.foldl_cons, List.map_cons]
    by_cases hthere : r.text ∈ met.map text
    · have hsub : [r.text] ⊆ met.map text := fun s hs => List.mem_singleton.mp hs ▸ hthere
      rw [addTo_of_mem hthere, ih met honce, ← List.singleton_append,
        eraseDups_append_of_subset _ hsub]
    · have honce' : ((met ++ [r]).map text).eraseDups = (met ++ [r]).map text := by
        have hnew : [r.text].removeAll (met.map text) = [r.text] :=
          List.filter_eq_self.mpr fun s hs => by simpa [List.mem_singleton.mp hs] using hthere
        rw [List.map_append, List.eraseDups_append, honce, List.map_singleton, hnew]
        rfl
      rw [addTo_of_not_mem hthere, ih _ honce', List.map_append, List.append_assoc]
      rfl

theorem mem_of_mem_foldl_addTo : ∀ (l met : List Reference) {x : Reference},
    x ∈ l.foldl addTo met → x ∈ met ∨ x ∈ l
  | [], _, _, h => Or.inl h
  | r :: l, met, x, h => by
    rcases mem_of_mem_foldl_addTo l (addTo met r) h with h | h
    · rcases mem_addTo.mp h with h | ⟨rfl, -⟩
      · exact Or.inl h
      · exact Or.inr (by simp)
    · exact Or.inr (by simp [h])

theorem subset_foldl_addTo : ∀ (l met : List Reference), met ⊆ l.foldl addTo met
  | [], _ => fun _ h => h
  | r :: l, met => fun _ h =>
    subset_foldl_addTo l (addTo met r) (mem_addTo.mpr (Or.inl h))

/-- Of every reference one with its text is kept. -/
theorem exists_mem_foldl_addTo : ∀ (l met : List Reference) {x : Reference},
    x ∈ l → ∃ y ∈ l.foldl addTo met, y.text = x.text
  | r :: l, met, x, h => by
    rcases List.mem_cons.mp h with rfl | h
    · by_cases hx : ∃ y ∈ met, y.text = x.text
      · obtain ⟨y, hy, he⟩ := hx
        exact ⟨y, subset_foldl_addTo l _ (mem_addTo.mpr (Or.inl hy)), he⟩
      · refine ⟨x, subset_foldl_addTo l _ (mem_addTo.mpr (Or.inr ⟨rfl, fun y hy he => ?_⟩)), rfl⟩
        exact hx ⟨y, hy, he⟩
    · exact exists_mem_foldl_addTo l (addTo met r) h

end Reference

namespace Expr

theorem size_le_sizes : ∀ {es : List Expr} {e : Expr}, e ∈ es → e.size ≤ size.sizes es
  | d :: es, e, h => by
    rcases List.mem_cons.mp h with rfl | h
    · simp [size.sizes]
    · have := size_le_sizes h
      simp only [size.sizes]; omega

/-- The references in a tree, where `visited` selects the arguments of a call that are looked at. -/
def occurrences (visited : String → List Expr → List Expr)
    (hv : ∀ name args, size.sizes (visited name args) ≤ size.sizes args) :
    Expr → List Reference
  | cell label => [.cell label]
  | range start stop => [.range start stop]
  | neg e => occurrences visited hv e
  | binary _ l r | unsupported _ l r => occurrences visited hv l ++ occurrences visited hv r
  | call name args => (visited name args).attach.flatMap fun ⟨e, _⟩ => occurrences visited hv e
  | literal _ | foreign _ => []
termination_by e => e.size
decreasing_by
  all_goals simp only [size]
  any_goals omega
  next h =>
    have h1 := size_le_sizes h
    have h2 := hv name args
    omega

theorem occurrences_call (visited : String → List Expr → List Expr)
    (hv : ∀ name args, size.sizes (visited name args) ≤ size.sizes args) (name : String)
    (args : List Expr) : occurrences visited hv (call name args) =
      (visited name args).flatMap (occurrences visited hv) := by
  simp only [occurrences, List.flatMap_subtype, List.unattach_attach]

/-- **The walk keeps the first reference of each text.** -/
theorem collect_eq_foldl (visited : String → List Expr → List Expr)
    (hv : ∀ name args, size.sizes (visited name args) ≤ size.sizes args)
    (met : List Reference) (pending : List Expr) :
    collect visited hv met pending =
      (pending.flatMap (occurrences visited hv)).foldl Reference.addTo met := by
  fun_induction collect visited hv met pending with
  | case1 => rfl
  | case2 met label rest ih => simp [ih, occurrences]
  | case3 met start stop rest ih => simp [ih, occurrences]
  | case4 met e rest ih => simp [ih, occurrences]
  | case5 met op l r rest ih => simp [ih, occurrences]
  | case6 met symbol l r rest ih => simp [ih, occurrences]
  | case7 met name args rest ih => simp [ih, occurrences_call]
  | case8 met v rest ih => simp [ih, occurrences]
  | case9 met kind rest ih => simp [ih, occurrences]

theorem sizes_all_le (_name : String) (args : List Expr) : size.sizes args ≤ size.sizes args :=
  Nat.le_refl _

/-- All references in a tree. -/
def mentions (e : Expr) : List Reference :=
  occurrences (fun _ args => args) sizes_all_le e

/-- The references in a tree that are read whatever the conditions say. -/
def eagerMentions (e : Expr) : List Reference :=
  occurrences eagerArguments sizes_eagerArguments_le e

theorem mem_mentions_of_mem_references {e : Expr} {r : Reference} (h : r ∈ e.references) :
    r ∈ e.mentions := by
  rw [references, collect_eq_foldl] at h
  simpa [mentions] using Reference.mem_of_mem_foldl_addTo _ _ h

theorem exists_mem_references {e : Expr} {r : Reference} (h : r ∈ e.mentions) :
    ∃ r' ∈ e.references, r'.text = r.text := by
  rw [references, collect_eq_foldl]
  exact Reference.exists_mem_foldl_addTo _ _ (by simpa [mentions] using h)

theorem mem_eagerMentions_of_mem_eagerReferences {e : Expr} {r : Reference}
    (h : r ∈ e.eagerReferences) : r ∈ e.eagerMentions := by
  rw [eagerReferences, collect_eq_foldl] at h
  simpa [eagerMentions] using Reference.mem_of_mem_foldl_addTo _ _ h

theorem eagerArguments_subset (name : String) (args : List Expr) :
    eagerArguments name args ⊆ args := by
  unfold eagerArguments
  split_ifs
  · exact List.take_subset 1 args
  · exact List.Subset.refl args

theorem mem_mentions_of_mem_eagerMentions {e : Expr} {r : Reference} (h : r ∈ e.eagerMentions) :
    r ∈ e.mentions := by
  unfold eagerMentions at h
  unfold mentions
  fun_induction occurrences eagerArguments sizes_eagerArguments_le e with
  | case1 | case2 => simpa [occurrences] using h
  | case3 e ih => simpa [occurrences] using ih h
  | case4 op l r ihl ihr | case5 symbol l r ihl ihr =>
    simpa [occurrences] using (List.mem_append.mp h).imp ihl ihr
  | case6 name args ih =>
    obtain ⟨⟨d, hd⟩, -, hr⟩ := List.mem_flatMap.mp h
    simpa [occurrences] using ⟨d, eagerArguments_subset name args hd, ih d hd hr⟩
  | case7 | case8 => simp at h

/-- **No reference stands in a branch of `IF`.** -/
inductive Unbranched : Expr → Prop
  | literal {v} : Unbranched (.literal v)
  | cell {label} : Unbranched (.cell label)
  | range {start stop} : Unbranched (.range start stop)
  | neg {e} (h : Unbranched e) : Unbranched (.neg e)
  | binary {op l r} (hl : Unbranched l) (hr : Unbranched r) : Unbranched (.binary op l r)
  | unsupported {symbol l r} (hl : Unbranched l) (hr : Unbranched r) :
      Unbranched (.unsupported symbol l r)
  | call {name args} (hargs : ∀ e ∈ args, Unbranched e)
      (hbranches : isConditional name = true → ∀ e ∈ args.tail, e.mentions = []) :
      Unbranched (.call name args)
  | foreign {kind} : Unbranched (.foreign kind)

theorem mentions_call (name : String) (args : List Expr) :
    (call name args).mentions = args.flatMap mentions :=
  occurrences_call _ sizes_all_le name args

theorem eagerMentions_call (name : String) (args : List Expr) :
    (call name args).eagerMentions = (eagerArguments name args).flatMap eagerMentions :=
  occurrences_call eagerArguments sizes_eagerArguments_le name args

/-- Then all references are read whatever the conditions say. -/
theorem Unbranched.eagerMentions_eq {e : Expr} (h : e.Unbranched) :
    e.eagerMentions = e.mentions := by
  induction h with
  | literal | cell | range | foreign => simp [eagerMentions, mentions, occurrences]
  | neg _ ih => simpa [eagerMentions, mentions, occurrences] using ih
  | binary _ _ ihl ihr | unsupported _ _ ihl ihr =>
    simp only [eagerMentions, mentions, occurrences] at ihl ihr ⊢
    rw [ihl, ihr]
  | @call name args _ hbranches ih =>
    rw [eagerMentions_call, mentions_call,
      List.flatMap_congr fun e he => ih e (eagerArguments_subset name args he)]
    by_cases hname : isConditional name = true
    · rw [eagerArguments, if_pos hname]
      cases args with
      | nil => rfl
      | cons condition branches =>
        have hnone : branches.flatMap mentions = [] := List.flatMap_eq_nil_iff.mpr (hbranches hname)
        rw [List.flatMap_cons, hnone]
        rfl
    · rw [eagerArguments, if_neg hname]

theorem Unbranched.eagerReferences_eq {e : Expr} (h : e.Unbranched) :
    e.eagerReferences = e.references := by
  have hmentions := h.eagerMentions_eq
  unfold eagerMentions mentions at hmentions
  rw [eagerReferences, references, collect_eq_foldl, collect_eq_foldl, List.flatMap_singleton,
    List.flatMap_singleton, hmentions]

/-! ### What evaluation asks for -/

theorem asksOnly_pureResult {α : Type} (p : String → Prop) (r : Except Fault α) :
    (pureResult r : ExceptT Fault Inquiry α).run.AsksOnly p := trivial

theorem asksOnly_run_bind {α β : Type} {p : String → Prop} {x : ExceptT Fault Inquiry α}
    {f : α → ExceptT Fault Inquiry β} (hx : x.run.AsksOnly p)
    (hf : ∀ a, (f a).run.AsksOnly p) : (x >>= f).run.AsksOnly p := by
  rw [ExceptT.run_bind]
  refine hx.bind fun r => ?_
  cases r with
  | ok a => exact hf a
  | error e => trivial

theorem asksOnly_mapM {p : String → Prop} : ∀ {labels : List String}, (∀ l ∈ labels, p l) →
    (labels.mapM Inquiry.cell).run.AsksOnly p
  | [], _ => trivial
  | l :: labels, h => by
    rw [List.mapM_cons]
    refine asksOnly_run_bind ⟨h l (by simp), fun _ => trivial⟩ fun v => ?_
    exact asksOnly_run_bind (asksOnly_mapM fun l' hl' => h l' (by simp [hl'])) fun _ => trivial

theorem asksOnly_readRange {p : String → Prop} {start stop : String}
    (h : ∀ l, (Reference.range start stop).Covers l → p l) :
    (readRange Inquiry.cell start stop).run.AsksOnly p := by
  unfold readRange
  cases hr : Range.labels (start ++ ":" ++ stop) with
  | error f => rw [pureResult_error_bind]; trivial
  | ok labels =>
    rw [pureResult_ok_bind]
    refine asksOnly_run_bind (asksOnly_mapM fun l hl => h l ⟨labels, hr, hl⟩) fun values => ?_
    exact asksOnly_run_bind (asksOnly_pureResult p _) fun _ => trivial

theorem asksOnly_operands {p : String → Prop} {x y : ExceptT Fault Inquiry Value}
    {g : Number → Number → Except Fault Value} (hx : x.run.AsksOnly p) (hy : y.run.AsksOnly p) :
    (do
      let a ← pureResult (← x).toNumber
      let b ← pureResult (← y).toNumber
      pureResult (g a b) : ExceptT Fault Inquiry Value).run.AsksOnly p := by
  refine asksOnly_run_bind hx fun v => asksOnly_run_bind (asksOnly_pureResult p _) fun a => ?_
  refine asksOnly_run_bind hy fun w => asksOnly_run_bind (asksOnly_pureResult p _) fun b => ?_
  exact asksOnly_pureResult p _

mutual

/-- **Evaluation asks only for cells of its references.** -/
theorem asksOnly_evaluate {p : String → Prop} : ∀ e : Expr,
    (∀ r ∈ e.mentions, ∀ l, r.Covers l → p l) → (e.evaluate Inquiry.cell).run.AsksOnly p
  | .literal v, _ => trivial
  | .cell label, h => by
    refine ⟨h (.cell label) (by simp [mentions, occurrences]) label ⟨[label], rfl, by simp⟩, ?_⟩
    exact fun _ => trivial
  | .range start stop, h => by
    rw [evaluate]
    exact asksOnly_readRange (h (.range start stop) (by simp [mentions, occurrences]))
  | .neg e, h => by
    rw [evaluate]
    refine asksOnly_run_bind (asksOnly_evaluate e fun r hr => h r ?_) fun v => ?_
    · simpa [mentions, occurrences] using hr
    · exact asksOnly_run_bind (asksOnly_pureResult p _) fun _ => trivial
  | .binary op l r, h => by
    rw [evaluate]
    exact asksOnly_operands
      (asksOnly_evaluate l fun x hx => h x (by simpa [mentions, occurrences] using Or.inl hx))
      (asksOnly_evaluate r fun x hx => h x (by simpa [mentions, occurrences] using Or.inr hx))
  | .unsupported symbol l r, h => by
    rw [evaluate]
    exact asksOnly_operands
      (asksOnly_evaluate l fun x hx => h x (by simpa [mentions, occurrences] using Or.inl hx))
      (asksOnly_evaluate r fun x hx => h x (by simpa [mentions, occurrences] using Or.inr hx))
  | .call name args, h => by
    have hargs : ∀ e ∈ args, ∀ r ∈ e.mentions, ∀ l, r.Covers l → p l := fun e he r hr =>
      h r (by simpa [mentions, occurrences] using ⟨e, he, hr⟩)
    rw [evaluate]
    split
    · exact asksOnly_evaluateConditional args hargs
    · exact asksOnly_run_bind (asksOnly_evaluateList args hargs) fun _ => asksOnly_pureResult p _
  | .foreign kind, _ => trivial

theorem asksOnly_evaluateList {p : String → Prop} : ∀ es : List Expr,
    (∀ e ∈ es, ∀ r ∈ e.mentions, ∀ l, r.Covers l → p l) →
      (evaluateList Inquiry.cell es).run.AsksOnly p
  | [], _ => trivial
  | e :: rest, h => by
    rw [evaluateList]
    refine asksOnly_run_bind (asksOnly_evaluate e (h e (by simp))) fun v => ?_
    refine asksOnly_run_bind (asksOnly_evaluateList rest fun d hd => h d (by simp [hd])) fun _ => ?_
    trivial

theorem asksOnly_evaluateConditional {p : String → Prop} : ∀ es : List Expr,
    (∀ e ∈ es, ∀ r ∈ e.mentions, ∀ l, r.Covers l → p l) →
      (evaluateConditional Inquiry.cell es).run.AsksOnly p
  | [], _ => trivial
  | [condition], h => by
    rw [evaluateConditional]
    exact asksOnly_run_bind (asksOnly_evaluate condition (h _ (by simp))) fun _ => trivial
  | [condition, yes], h => by
    rw [evaluateConditional]
    refine asksOnly_run_bind (asksOnly_evaluate condition (h _ (by simp))) fun v => ?_
    split
    · exact asksOnly_evaluate yes (h _ (by simp))
    · trivial
  | condition :: yes :: no :: _, h => by
    rw [evaluateConditional]
    refine asksOnly_run_bind (asksOnly_evaluate condition (h _ (by simp))) fun v => ?_
    split
    · exact asksOnly_evaluate yes (h _ (by simp))
    · exact asksOnly_evaluate no (h _ (by simp))

end

/-! ### What evaluation asks for in any case -/

theorem resolve_run_bind {α β : Type} {known : Knowledge} {x : ExceptT Fault Inquiry α}
    {f : α → ExceptT Fault Inquiry β} {b : β}
    (h : (x >>= f).run.resolve known = some (.ok b)) :
    ∃ a, x.run.resolve known = some (.ok a) ∧ (f a).run.resolve known = some (.ok b) ∧
      (x >>= f).run.asked known = x.run.asked known ++ (f a).run.asked known := by
  rw [ExceptT.run_bind, Inquiry.resolve_bind] at h
  obtain ⟨r, hr, h⟩ := Option.bind_eq_some_iff.mp h
  cases r with
  | error e => simp [Inquiry.resolve, pure] at h
  | ok a =>
    refine ⟨a, hr, h, ?_⟩
    rw [ExceptT.run_bind, Inquiry.asked_bind, hr]
    rfl

/-- All cells that the reference stands for have been asked for. -/
def Meets (known : Knowledge) {α : Type} (x : Inquiry α) (r : Reference) : Prop :=
  ∃ labels, r.labels = .ok labels ∧ labels ⊆ x.asked known

theorem asked_mapM {known : Knowledge} : ∀ {labels : List String} {vs : List Value},
    (labels.mapM Inquiry.cell).run.resolve known = some (.ok vs) →
      (labels.mapM Inquiry.cell).run.asked known = labels
  | [], _, _ => rfl
  | l :: labels, vs, h => by
    rw [List.mapM_cons] at h ⊢
    obtain ⟨v, hv, h, he⟩ := resolve_run_bind h
    obtain ⟨ws, hws, -, he'⟩ := resolve_run_bind h
    obtain ⟨w, hw, -⟩ := Option.bind_eq_some_iff.mp hv
    rw [he, he', asked_mapM hws]
    simp [Inquiry.cell, Inquiry.asked, hw, pure, ExceptT.pure, ExceptT.run, ExceptT.mk]

/-- A range that is read without fault has asked for its cells in order. -/
theorem asked_readRange {known : Knowledge} {start stop : String} {v : Value}
    (h : (readRange Inquiry.cell start stop).run.resolve known = some (.ok v)) :
    (Reference.range start stop).labels =
      .ok ((readRange Inquiry.cell start stop).run.asked known) := by
  unfold readRange at h ⊢
  cases hr : Range.labels (start ++ ":" ++ stop) with
  | error f =>
    rw [hr, pureResult_error_bind] at h
    simp [pureResult, Inquiry.resolve, pure] at h
  | ok labels =>
    rw [hr, pureResult_ok_bind] at h
    rw [pureResult_ok_bind]
    obtain ⟨vs, hvs, hrest, he⟩ := resolve_run_bind h
    obtain ⟨ws, -, -, he'⟩ := resolve_run_bind hrest
    rw [he, he', asked_mapM hvs, Reference.labels, hr]
    simp [pureResult, Inquiry.asked, pure, ExceptT.pure, ExceptT.run, ExceptT.mk]

theorem Meets.bind_left {known : Knowledge} {α β : Type} {x : ExceptT Fault Inquiry α}
    {f : α → ExceptT Fault Inquiry β} {r : Reference} {b : β} (h : Meets known x.run r)
    (hb : (x >>= f).run.resolve known = some (.ok b)) : Meets known (x >>= f).run r := by
  obtain ⟨labels, hr, hl⟩ := h
  obtain ⟨a, -, -, he⟩ := resolve_run_bind hb
  exact ⟨labels, hr, fun l h => he ▸ List.mem_append_left _ (hl h)⟩

theorem Meets.bind_right {known : Knowledge} {α β : Type} {x : ExceptT Fault Inquiry α}
    {f : α → ExceptT Fault Inquiry β} {r : Reference} {b : β}
    (h : ∀ a, (f a).run.resolve known = some (.ok b) → Meets known (f a).run r)
    (hb : (x >>= f).run.resolve known = some (.ok b)) : Meets known (x >>= f).run r := by
  obtain ⟨a, -, hf, he⟩ := resolve_run_bind hb
  obtain ⟨labels, hr, hl⟩ := h a hf
  exact ⟨labels, hr, fun l h => he ▸ List.mem_append_right _ (hl h)⟩

theorem meets_operands {known : Knowledge} {x y : ExceptT Fault Inquiry Value}
    {g : Number → Number → Except Fault Value} {r : Reference} {b : Value}
    (hx : ∀ v, x.run.resolve known = some (.ok v) → Meets known x.run r ∨
      ∀ w, y.run.resolve known = some (.ok w) → Meets known y.run r)
    (hb : (do
      let a ← pureResult (← x).toNumber
      let b ← pureResult (← y).toNumber
      pureResult (g a b) : ExceptT Fault Inquiry Value).run.resolve known = some (.ok b)) :
    Meets known (do
      let a ← pureResult (← x).toNumber
      let b ← pureResult (← y).toNumber
      pureResult (g a b) : ExceptT Fault Inquiry Value).run r := by
  obtain ⟨v, hv, -, -⟩ := resolve_run_bind hb
  rcases hx v hv with h | h
  · exact h.bind_left hb
  · refine Meets.bind_right (fun v hv => Meets.bind_right (fun a ha => ?_) hv) hb
    obtain ⟨w, hw, -, -⟩ := resolve_run_bind ha
    exact (h w hw).bind_left ha

mutual

/-- **What is evaluated without fault has asked for all its eager references.** -/
theorem meets_evaluate {known : Knowledge} : ∀ (e : Expr) {v : Value},
    (e.evaluate Inquiry.cell).run.resolve known = some (.ok v) →
      ∀ r ∈ e.eagerMentions, Meets known (e.evaluate Inquiry.cell).run r
  | .literal v, _, _, r, hr => by simp [eagerMentions, occurrences] at hr
  | .cell label, _, h, r, hr => by
    obtain rfl : r = .cell label := by simpa [eagerMentions, occurrences] using hr
    exact ⟨[label], rfl, by simp [evaluate, Inquiry.cell, Inquiry.asked]⟩
  | .range start stop, _, h, r, hr => by
    obtain rfl : r = .range start stop := by simpa [eagerMentions, occurrences] using hr
    rw [evaluate] at h ⊢
    exact ⟨_, asked_readRange h, List.Subset.refl _⟩
  | .neg e, _, h, r, hr => by
    rw [evaluate] at h ⊢
    obtain ⟨v, hv, -, -⟩ := resolve_run_bind h
    exact (meets_evaluate e hv r (by simpa [eagerMentions, occurrences] using hr)).bind_left h
  | .binary op l r, _, h, x, hx => by
    rw [evaluate] at h ⊢
    refine meets_operands (fun v hv => ?_) h
    rcases (by simpa [eagerMentions, occurrences] using hx :
      x ∈ l.eagerMentions ∨ x ∈ r.eagerMentions) with hx | hx
    · exact Or.inl (meets_evaluate l hv x hx)
    · exact Or.inr fun w hw => meets_evaluate r hw x hx
  | .unsupported symbol l r, _, h, x, hx => by
    rw [evaluate] at h ⊢
    refine meets_operands (fun v hv => ?_) h
    rcases (by simpa [eagerMentions, occurrences] using hx :
      x ∈ l.eagerMentions ∨ x ∈ r.eagerMentions) with hx | hx
    · exact Or.inl (meets_evaluate l hv x hx)
    · exact Or.inr fun w hw => meets_evaluate r hw x hx
  | .call name args, _, h, r, hr => by
    obtain ⟨e, he, hr⟩ : ∃ e ∈ eagerArguments name args, r ∈ e.eagerMentions := by
      simpa [eagerMentions, occurrences] using hr
    rw [evaluate] at h ⊢
    by_cases hname : isConditional name = true
    · simp only [hname, if_true] at h ⊢
      rw [eagerArguments, if_pos hname] at he
      exact meets_evaluateConditional args h e he r hr
    · simp only [hname] at h ⊢
      rw [eagerArguments, if_neg hname] at he
      obtain ⟨vs, hvs, -, -⟩ := resolve_run_bind h
      exact (meets_evaluateList args hvs e he r hr).bind_left h
  | .foreign kind, _, _, r, hr => by simp [eagerMentions, occurrences] at hr

theorem meets_evaluateList {known : Knowledge} : ∀ (es : List Expr) {vs : List Value},
    (evaluateList Inquiry.cell es).run.resolve known = some (.ok vs) →
      ∀ e ∈ es, ∀ r ∈ e.eagerMentions, Meets known (evaluateList Inquiry.cell es).run r
  | d :: rest, _, h, e, he, r, hr => by
    rw [evaluateList] at h ⊢
    rcases List.mem_cons.mp he with he | he
    · obtain rfl : d = e := he.symm
      obtain ⟨v, hv, -, -⟩ := resolve_run_bind h
      exact (meets_evaluate d hv r hr).bind_left h
    · refine Meets.bind_right (fun v hv => ?_) h
      obtain ⟨vs, hvs, -, -⟩ := resolve_run_bind hv
      exact (meets_evaluateList rest hvs e he r hr).bind_left hv

theorem meets_evaluateConditional {known : Knowledge} : ∀ (es : List Expr) {v : Value},
    (evaluateConditional Inquiry.cell es).run.resolve known = some (.ok v) →
      ∀ e ∈ es.take 1, ∀ r ∈ e.eagerMentions,
        Meets known (evaluateConditional Inquiry.cell es).run r
  | [condition], _, h, e, he, r, hr => by
    obtain rfl : condition = e := by simpa [eq_comm] using he
    rw [evaluateConditional] at h ⊢
    obtain ⟨v, hv, -, -⟩ := resolve_run_bind h
    exact (meets_evaluate condition hv r hr).bind_left h
  | [condition, yes], _, h, e, he, r, hr => by
    obtain rfl : condition = e := by simpa [eq_comm] using he
    rw [evaluateConditional] at h ⊢
    obtain ⟨v, hv, -, -⟩ := resolve_run_bind h
    exact (meets_evaluate condition hv r hr).bind_left h
  | condition :: yes :: no :: _, _, h, e, he, r, hr => by
    obtain rfl : condition = e := by simpa [eq_comm] using he
    rw [evaluateConditional] at h ⊢
    obtain ⟨v, hv, -, -⟩ := resolve_run_bind h
    exact (meets_evaluate condition hv r hr).bind_left h

end

end Expr

end Spreadsheet
