import Spreadsheet.Log.Report
import Spreadsheet.Proofs.Log.PlainEvents
import Spreadsheet.Proofs.Log.ReadBack
import Mathlib.Data.String.Basic

/-! # Events found by their attribution

A report puts an event for each failed cell into the log, and a summary after them
(`Report.values_events`). A query for the sheet's name, as the log keeps it, is answered by all of
them, the last first (`Report.select_of_sheet`); one for a cell by the event of that cell alone,
unless the log has cut its label (`Report.select_of_cell`). -/

namespace Spreadsheet

namespace Log

/-! ### Labels in a context -/

/-- A label under which cells are kept is in upper case. -/
theorem upper_of_isKey {k : String} (h : Label.IsKey k) : Text.upper k = k := by
  obtain ⟨letters, digits, rfl, -, -, hl, hd⟩ := h
  have hupper : Text.upperList letters = letters := Label.Plain.upperList fun c hc => Or.inl (hl c hc)
  rw [Text.upper, String.toList_ofList, Text.upperList_append, hupper,
    Label.upperList_of_isDigit hd]

theorem point_not_mem_of_isKey {k : String} (h : Label.IsKey k) : '.' ∉ k.toList := by
  obtain ⟨letters, digits, rfl, -, -, hl, hd⟩ := h
  rw [String.toList_ofList, List.mem_append, not_or]
  exact ⟨fun hmem => absurd (hl _ hmem) (by decide), fun hmem => absurd (hd _ hmem) (by decide)⟩

/-- **A label that has been cut** is none that has not. -/
theorem upper_cut_eq_iff {l c : String} (hl : Label.IsKey l) (hc : Label.IsKey c)
    (hshort : c.length ≤ Redaction.textLimit) : Text.upper (Redaction.cut l) = c ↔ l = c := by
  unfold Redaction.cut
  split
  · rw [upper_of_isKey hl]
  · next hlong =>
    refine iff_of_false (fun heq => point_not_mem_of_isKey hc ?_) (fun heq => hlong (heq ▸ hshort))
    have hpoint : Text.upperList ['.'] = ['.'] := by decide
    have hmark : '.' ∈ Text.upperList Redaction.cutMark.toList := by decide
    rw [← heq, Text.upper, String.toList_ofList, String.toList_append, Text.upperList_append]
    exact List.mem_append_right _ hmark

theorem cut_ne_empty {s : String} (hs : s ≠ "") : Redaction.cut s ≠ "" := by
  unfold Redaction.cut
  split
  · exact hs
  · have hmark : Redaction.cutMark ≠ "" := by decide
    simp [hmark]

/-! ### The events of a report -/

namespace Report

/-- What the log keeps in the context of a failed cell. -/
def cellContext (sheet cell : String) : List (String × Value) :=
  [("sheet_name", .text (Redaction.cut sheet)), ("cell", .text (Redaction.cut cell))]

/-- What the log keeps in the context of a summary. -/
def summaryContext (r : Report) : List (String × Value) :=
  [("sheet_name", .text (Redaction.cut r.sheet)), ("formula_cells", .int r.formulas),
    ("error_cells", .int r.errors.length)]

theorem plain_cellEvent (time sheet cell message : String) :
    (cellEvent time sheet cell message).prepared.Plain (cellContext sheet cell) := by
  have hcontext : (cellEvent time sheet cell message).prepared.context
      = (cellContext sheet cell).map fun x => (.text x.1, x.2) := by
    unfold cellEvent
    split <;> rfl
  have hschema : (cellEvent time sheet cell message).prepared.schema = 1 := by
    unfold cellEvent
    split <;> rfl
  refine Event.plain_of_simple hcontext (by simp [cellContext]) hschema ?_
  exact List.forall_mem_cons.mpr ⟨.inl ⟨_, rfl⟩, List.forall_mem_singleton.mpr (.inl ⟨_, rfl⟩)⟩

variable {r : Report}

/-- **A report that can be told**: its counts have numerals, and no duration was measured. -/
structure Tellable (r : Report) : Prop where
  formulas : Json.Writable (.int r.formulas)
  errors : Json.Writable (.int r.errors.length)
  duration : r.duration = none

theorem plain_summary (h : r.Tellable) (time : String) :
    (r.summary time).prepared.Plain r.summaryContext := by
  obtain ⟨sheet, errors, formulas, duration⟩ := r
  obtain rfl : duration = none := h.duration
  have hcontext : (summary ⟨sheet, errors, formulas, none⟩ time).prepared.context
      = (summaryContext ⟨sheet, errors, formulas, none⟩).map fun x => (.text x.1, x.2) := by
    rfl
  refine Event.plain_of_simple hcontext (by simp [summaryContext]) rfl ?_
  exact List.forall_mem_cons.mpr ⟨.inl ⟨_, rfl⟩, List.forall_mem_cons.mpr
    ⟨.inr ⟨_, rfl, h.formulas⟩, List.forall_mem_singleton.mpr (.inr ⟨_, rfl, h.errors⟩)⟩⟩

/-- The failed cells, the last label first. -/
def latest (errors : OrderedMap String String) : List (String × String) :=
  (sortedErrors errors).reverse

theorem latest_perm (errors : OrderedMap String String) : (latest errors).Perm errors :=
  (List.reverse_perm _).trans (List.mergeSort_perm _ _)

/-- **The labels descend.** -/
theorem latest_descends {errors : OrderedMap String String} (h : errors.keys.Nodup) :
    ((latest errors).map Prod.fst).Pairwise (· > ·) := by
  have hsorted : (sortedErrors errors).Pairwise fun a b => a.1 ≤ b.1 := by
    refine (List.pairwise_mergeSort ?_ ?_ errors).imp fun h => of_decide_eq_true h
    · exact fun a b c hab hbc => decide_eq_true
        (String.le_trans (of_decide_eq_true hab) (of_decide_eq_true hbc))
    · exact fun a b => by simpa using String.le_total a.1 b.1
  have hnodup : ((sortedErrors errors).map Prod.fst).Nodup :=
    ((List.mergeSort_perm errors _).map Prod.fst).nodup_iff.mpr h
  rw [latest, List.map_reverse, List.pairwise_reverse]
  exact List.Pairwise.imp₂ (fun _ _ => lt_of_le_of_ne) (List.pairwise_map.mpr hsorted) hnodup

theorem reverse_events (r : Report) (time : String) : (r.events time).reverse
    = r.summary time :: (latest r.errors).map fun (cell, message) =>
      cellEvent time r.sheet cell message := by
  rw [events, List.reverse_append, List.reverse_singleton, List.singleton_append, ← List.map_reverse]
  rfl

/-- How many octets the lines of a report have. -/
def size (r : Report) (time : String) : Nat :=
  ((r.events time).map fun e => e.prepared.lineOctets.length).sum

/-- What the log gives back of the summary. -/
def keptSummary (r : Report) (time : String) : Value :=
  (r.summary time).prepared.kept

/-- What the log gives back of a failed cell, given by its label and its message. -/
def keptCell (time sheet : String) (x : String × String) : Value :=
  (cellEvent time sheet x.1 x.2).prepared.kept

/-- What the log gives back of a report, the last event first. -/
def keptEvents (r : Report) (time : String) : List Value :=
  r.keptSummary time :: (latest r.errors).map (keptCell time r.sheet)

theorem exists_plain (h : r.Tellable) (time : String) :
    ∀ e ∈ r.events time, ∃ context, e.prepared.Plain context := by
  refine List.forall_mem_append.mpr ⟨List.forall_mem_map.mpr fun x _ => ?_,
    List.forall_mem_singleton.mpr ⟨_, plain_summary h time⟩⟩
  exact ⟨_, plain_cellEvent time r.sheet x.1 x.2⟩

/-- The lines of a report are read as what is kept of its events. -/
theorem values_events (h : r.Tellable) (time : String) {tailSize : Int}
    (hsize : r.size time ≤ tailSize) : Journal.values tailSize
      ((r.events time).map fun e => e.prepared.lineOctets).flatten
        = .ok (r.keptEvents time).reverse := by
  have hdata : ∀ e ∈ (r.events time).map Event.prepared, e.IsData :=
    List.forall_mem_map.mpr fun e he => (exists_plain h time e he).elim fun _ hplain => hplain.isData
  have hforms : ∀ es : List Event, (∀ e ∈ es, ∃ context, e.Plain context) →
      es.mapM Event.form = .ok (es.map Event.kept) := fun es hes => by
    induction es with
    | nil => rfl
    | cons e es ih =>
      obtain ⟨⟨context, he⟩, hrest⟩ := List.forall_mem_cons.mp hes
      rw [List.mapM_cons, he.form, ih hrest]
      rfl
  have hfits : (((r.events time).map Event.prepared).map fun e => e.lineOctets.length).sum
      ≤ tailSize := by
    rw [List.map_map]
    exact hsize
  obtain ⟨values, hvalues, hread⟩ :=
    exists_values_fitting hdata (Int.le_trans (Int.natCast_nonneg _) hfits)
  rw [fitting, Journal.longestEnd_eq_self hfits,
    hforms _ (List.forall_mem_map.mpr (exists_plain h time))] at hvalues
  obtain rfl := Except.ok.inj hvalues
  have hreverse : (((r.events time).map Event.prepared).map Event.kept).reverse
      = r.keptEvents time := by
    rw [← List.map_reverse, ← List.map_reverse, reverse_events, List.map_cons, List.map_cons,
      List.map_map, List.map_map]
    rfl
  rw [← hreverse, List.reverse_reverse, ← hread, List.map_map]
  rfl

/-! ### Queries for reported events -/

/-- The event of a label among events of distinct labels. -/
theorem filter_label {cells : List (String × String)} (hkeys : (cells.map Prod.fst).Nodup)
    {c message : String} (h : (c, message) ∈ cells) :
    cells.filter (fun x => x.1 == c) = [(c, message)] := by
  induction cells with
  | nil => cases h
  | cons x cells ih =>
    obtain ⟨hnew, hrest⟩ := List.nodup_cons.mp hkeys
    rcases List.mem_cons.mp h with rfl | hmem
    · have hnone : cells.filter (fun x => x.1 == c) = [] := by
        refine List.filter_eq_nil_iff.mpr fun x hx heq => hnew ?_
        exact List.mem_map.mpr ⟨x, hx, beq_iff_eq.mp heq⟩
      rw [List.filter_cons_of_pos (by simp), hnone]
    · have hne : x.1 ≠ c := fun heq => hnew (heq ▸ List.mem_map.mpr ⟨_, hmem, rfl⟩)
      rw [List.filter_cons_of_neg (by simpa using hne)]
      exact ih hrest hmem

section Queries

variable {q : Query} {time sheet : String} {t : String}

/-- A query for a sheet alone selects what is reported on it. -/
theorem selects_of_sheet (h : r.Tellable) (time : String) (ht : t ≠ "") (hq : q.For t none) :
    ∀ v ∈ r.keptEvents time, q.selects v = .ok (decide (Redaction.cut r.sheet = t)) := by
  have hselects : ∀ {e : Event} {context}, e.Plain context →
      ("sheet_name", .text (Redaction.cut r.sheet)) ∈ context →
      q.selects e.kept = .ok (decide (Redaction.cut r.sheet = t)) := fun hplain hmem => by
    rw [hplain.selects_of_sheet hmem ht hq fun _ => Event.ofCell_of_none hq.cell _,
      Bool.and_true]
  refine List.forall_mem_cons.mpr ⟨hselects (plain_summary h time) (by simp [summaryContext]),
    List.forall_mem_map.mpr fun x _ => ?_⟩
  exact hselects (plain_cellEvent time r.sheet x.1 x.2) (by simp [cellContext])

variable {c : String}

/-- A query for a cell does not select the summary. -/
theorem selects_summary (h : r.Tellable) (hc : Label.IsKey c) (ht : t ≠ "")
    (hq : q.For t (some c)) : q.selects (r.keptSummary time) = .ok false := by
  have hplain := plain_summary h time
  have hof := hplain.ofCell (by simp [summaryContext]) hc hq.cell
  rw [Json.field?_sorted_of_not_mem (by simp [summaryContext])] at hof
  have hfalse : (Text.upper "" == c) = false := by
    have hupper : Text.upper "" = "" := by decide
    rw [hupper]
    simpa using (Event.ne_empty_of_isKey hc).symm
  rw [keptSummary, hplain.selects_of_sheet (s := Redaction.cut r.sheet) (by simp [summaryContext]) ht
    hq (b := false) fun _ => hof.trans (congrArg Except.ok hfalse), Bool.and_false]

/-- **A query for a cell** of a sheet selects the failed cell with its label. -/
theorem selects_cell (hc : Label.IsKey c) (hshort : c.length ≤ Redaction.textLimit)
    {x : String × String} (hx : Label.IsKey x.1) (ht : Redaction.cut sheet ≠ "")
    (hq : q.For (Redaction.cut sheet) (some c)) :
    q.selects (keptCell time sheet x) = .ok (x.1 == c) := by
  have hplain := plain_cellEvent time sheet x.1 x.2
  have hof := hplain.ofCell (by simp [cellContext]) hc hq.cell
  rw [Json.field?_sorted hplain.keys (v := .text (Redaction.cut x.1)) (by simp [cellContext])] at hof
  have hsame : (Text.upper (Redaction.cut x.1) == c) = (x.1 == c) := by
    rw [Bool.eq_iff_iff, beq_iff_eq, beq_iff_eq, upper_cut_eq_iff hx hc hshort]
  rw [keptCell, hplain.selects_of_sheet (s := Redaction.cut sheet) (by simp [cellContext]) ht hq
    (b := x.1 == c) fun _ => hof.trans (congrArg Except.ok hsame)]
  simp

/-- **A query for a sheet** is answered by all that is reported on it, as far as there is room. -/
theorem select_of_sheet (h : r.Tellable) (time : String) (hname : r.sheet ≠ "")
    (hq : q.For (Redaction.cut r.sheet) none) :
    q.select (q.room - 1) (r.keptEvents time) = .ok ((r.keptEvents time).take q.room) := by
  have hselects := selects_of_sheet h time (cut_ne_empty hname) hq
  rw [decide_eq_true rfl] at hselects
  rw [Query.select_const hselects, Nat.sub_add_cancel (Query.room_pos q), if_pos rfl]

/-- **A query for a failed cell** of a sheet is answered by what is reported on the cell. -/
theorem select_of_cell (h : r.Tellable) (hname : r.sheet ≠ "") (hkeys : r.errors.keys.Nodup)
    (hlabels : ∀ c ∈ r.errors.keys, Label.IsKey c) {message : String}
    (hmem : (c, message) ∈ r.errors) (hshort : c.length ≤ Redaction.textLimit)
    (hq : q.For (Redaction.cut r.sheet) (some c)) :
    q.select (q.room - 1) (r.keptEvents time) = .ok [keptCell time r.sheet (c, message)] := by
  have hcut := cut_ne_empty hname
  have hc : Label.IsKey c := hlabels c (List.mem_map.mpr ⟨_, hmem, rfl⟩)
  have hperm := latest_perm r.errors
  have hcells : ∀ x ∈ latest r.errors, q.selects (keptCell time r.sheet x) = .ok (x.1 == c) :=
    fun x hx => selects_cell hc hshort
      (hlabels x.1 (List.mem_map.mpr ⟨x, hperm.mem_iff.mp hx, rfl⟩)) hcut hq
  have hnodup : ((latest r.errors).map Prod.fst).Nodup := (hperm.map Prod.fst).nodup_iff.mpr hkeys
  rw [keptEvents, Query.select_of_false (selects_summary h hc hcut hq),
    Query.select_map hcells, filter_label hnodup (hperm.mem_iff.mpr hmem), List.take_succ_cons,
    List.take_nil]
  rfl

end Queries

/-- The kind that a value gives as that of an event. -/
def eventType? : Value → Option Value
  | .map es => Value.field? es "event_type"
  | _ => none

theorem eventType?_kept (e : Event) : eventType? e.kept = some (.text e.kind.name) := by
  have hmem : ("event_type", Value.text e.kind.name) ∈ e.fields := by simp [Event.fields]
  exact Json.field?_sorted e.nodup_fields hmem

/-- **The failures for circular references** are told as such. -/
theorem eventType?_keptCell (time sheet : String) (x : String × String) :
    eventType? (keptCell time sheet x) = some (.text "cell_cycle") ↔ x.2 = "#CYCLE!" := by
  have hkind : (cellEvent time sheet x.1 x.2).prepared.kind
      = if x.2 = "#CYCLE!" then .cellCycle else .cellError := by
    unfold cellEvent
    have hmessage : Session.CellError.cycle.message = "#CYCLE!" := rfl
    rw [hmessage]
    split <;> rfl
  rw [keptCell, eventType?_kept, hkind]
  split
  · next heq => exact iff_of_true rfl heq
  · next hne => exact iff_of_false (by simp [Kind.name]) hne

end Report

/-- **A report is told**: its events are kept, and queries are answered from them, the last first. -/
theorem Recorder.Opened.report {rec : Recorder} {d : Disk} (hopened : rec.Opened d)
    (hempty : rec.journal d = []) {r : Report} (h : r.Tellable) {time : String}
    (hsize : r.size time ≤ rec.tailSize) : ∃ after,
      (recordAll (Disk.host time) (some rec) (r.events time)).run d = pure ([], after) ∧
      ∀ q : Query, (rec.ask (Disk.host time) q).run after
        = pure (some (q.select (q.room - 1) (r.keptEvents time)), after) := by
  have hlines : ∀ e ∈ r.events time, e.prepared.line = .ok e.prepared.lineOctets := fun e he =>
    (Report.exists_plain h time e he).elim fun _ hplain => hplain.isData.line_eq
  obtain ⟨after, hrun, hafter, hjournal⟩ := puts_recordAll time hlines d hopened
  rw [hempty, List.nil_append] at hjournal
  refine ⟨after, hrun, fun q => ?_⟩
  have hvalues := Report.values_events h time hsize
  rw [hafter.ask, hjournal, Query.answer_of_values hvalues, List.reverse_reverse]

open Recorder Report in
/-- **Every failed cell is found by its attribution.** -/
theorem ask_reported {time project : String} {size : Option Int} {before d : Disk} {rec : Recorder}
    (hstart : (start (Disk.host time) project size).run before = (.ok rec, d))
    (hplace : d.entry? (journalPath project) ≠ some .directory) (hempty : rec.journal d = [])
    {r : Report} (htell : r.Tellable) (hsize : r.size time ≤ rec.tailSize) (hsheet : r.sheet ≠ "")
    (hkeys : r.errors.keys.Nodup) (hlabels : ∀ c ∈ r.errors.keys, Label.IsKey c) :
    ∃ (after : Disk) (cells : List (String × String)),
      (recordAll (Disk.host time) (some rec) (r.events time)).run d = ([], after) ∧
      cells.Perm r.errors ∧ (cells.map Prod.fst).Pairwise (· > ·) ∧
      eventType? (r.keptSummary time) = some (.text "sheet_evaluated") ∧
      ∀ limit : Int, 0 < limit →
        (rec.ask (Disk.host time) { sheet := some (Redaction.cut r.sheet), limit }).run after
          = (some (.ok ((r.keptSummary time :: cells.map (keptCell time r.sheet)).take
            (min limit Query.greatestLimit).toNat)), after) ∧
        ∀ c message, (c, message) ∈ r.errors → c.length ≤ Redaction.textLimit →
          (rec.ask (Disk.host time)
            { sheet := some (Redaction.cut r.sheet), cell := some c, limit }).run after
              = (some (.ok [keptCell time r.sheet (c, message)]), after) ∧
          (eventType? (keptCell time r.sheet (c, message)) = some (.text "cell_cycle") ↔
            message = "#CYCLE!") := by
  obtain ⟨rfl, hopened⟩ := opened_of_start hstart hplace
  obtain ⟨after, hrun, hask⟩ := hopened.report hempty htell hsize
  refine ⟨after, latest r.errors, hrun, latest_perm _, latest_descends hkeys,
    eventType?_kept _, fun limit hlimit => ⟨?_, fun c message hmem hshort => ⟨?_, ?_⟩⟩⟩
  · rw [hask, select_of_sheet htell time hsheet ⟨rfl, rfl, rfl, rfl⟩, Query.room_of_pos hlimit]
    rfl
  · rw [hask, select_of_cell htell hsheet hkeys hlabels hmem hshort ⟨rfl, rfl, rfl, rfl⟩]
    rfl
  · exact eventType?_keptCell time r.sheet (c, message)

/-- A report with a circular reference and another failure. -/
def budget : Report where
  sheet := "Budget"
  errors := [("B2", "Division by zero"), ("A1", "#CYCLE!")]
  formulas := 3

open Recorder Report in
/-- Both failed cells of the report are found, in a window that just holds its events. -/
theorem ask_reported_budget : ∃ (after : Disk) (cells : List (String × String)),
    (recordAll (Disk.host "") (some ⟨"proj", budget.size ""⟩) (budget.events "")).run
      [("proj", .directory), ("proj/logs", .directory)] = ([], after) ∧
    cells.Perm budget.errors ∧ (cells.map Prod.fst).Pairwise (· > ·) ∧
    eventType? (budget.keptSummary "") = some (.text "sheet_evaluated") ∧
    ∀ limit : Int, 0 < limit →
      (ask (Disk.host "") ⟨"proj", budget.size ""⟩ { sheet := some "Budget", limit }).run after
        = (some (.ok ((budget.keptSummary "" :: cells.map (keptCell "" "Budget")).take
          (min limit Query.greatestLimit).toNat)), after) ∧
      ∀ c message, (c, message) ∈ budget.errors → c.length ≤ Redaction.textLimit →
        (ask (Disk.host "") ⟨"proj", budget.size ""⟩
          { sheet := some "Budget", cell := some c, limit }).run after
            = (some (.ok [keptCell "" "Budget" (c, message)]), after) ∧
        (eventType? (keptCell "" "Budget" (c, message)) = some (.text "cell_cycle") ↔
          message = "#CYCLE!") := by
  have hstart : (start (Disk.host "") "proj" (some (budget.size ""))).run []
      = (.ok ⟨"proj", budget.size ""⟩, [("proj", .directory), ("proj/logs", .directory)]) := by rfl
  have hnone := journal_of_absent (r := ⟨"proj", budget.size ""⟩)
    (d := [("proj", .directory), ("proj/logs", .directory)]) (by decide)
  have htell : budget.Tellable :=
    ⟨Event.writable_digit (by decide), Event.writable_digit (by decide), rfl⟩
  have hlabel : ∀ (letter digit : Char), letter.isUpper = true → Text.isDigit digit = true →
      Label.IsKey (String.ofList ([letter] ++ [digit])) := fun letter digit hl hd =>
    ⟨[letter], [digit], rfl, by simp, by simp, by simpa using hl, by simpa using hd⟩
  have hlabels : ∀ c ∈ budget.errors.keys, Label.IsKey c :=
    List.forall_mem_cons.mpr ⟨hlabel 'B' '2' (by decide) (by decide),
      List.forall_mem_singleton.mpr (hlabel 'A' '1' (by decide) (by decide))⟩
  exact ask_reported hstart hnone.1 hnone.2 htell le_rfl (by decide) (by decide) hlabels

open Recorder Report in
/-- **A sheet with a long name** is not found under its name. -/
theorem not_found_long : ¬ ∀ sheet : String, sheet ≠ "" → ∀ size : Int,
    Report.size ⟨sheet, [], 1, none⟩ "" ≤ size → ∀ after : Disk,
    (recordAll (Disk.host "") (some ⟨"proj", size⟩) (Report.events ⟨sheet, [], 1, none⟩ "")).run
      [("proj", .directory), ("proj/logs", .directory)] = ([], after) →
    ∃ v, (ask (Disk.host "") ⟨"proj", size⟩ { sheet := some sheet }).run after
      = (some (.ok [v]), after) := by
  intro h
  obtain ⟨name, hlength⟩ : ∃ name : String, name.length = 257 :=
    ⟨String.ofList (List.replicate 257 'x'), by rw [String.length_ofList, List.length_replicate]⟩
  have hne : name ≠ "" := fun heq => by
    rw [heq, String.length_empty] at hlength
    exact absurd hlength (by decide)
  have hcut : Redaction.cut name ≠ name := fun heq => by
    have hcut := congrArg String.length heq
    rw [Redaction.cut, if_neg (by rw [hlength]; decide), String.length_append,
      String.length_ofList, List.length_take, String.length_toList, hlength] at hcut
    exact absurd hcut (by decide)
  obtain ⟨size, hsize⟩ : ∃ n : Nat, n = Report.size ⟨name, [], 1, none⟩ "" := ⟨_, rfl⟩
  have hfits : (Report.size ⟨name, [], 1, none⟩ "" : Int) ≤ size := Int.ofNat_le.mpr hsize.ge
  have hone : Json.Writable (.int 1) := Event.writable_digit (by decide)
  have hzero : Json.Writable (.int 0) := Event.writable_digit (by decide)
  have htell : Tellable ⟨name, [], 1, none⟩ := ⟨hone, hzero, rfl⟩
  have hstart : (start (Disk.host "") "proj" (some size)).run []
      = pure (.ok ⟨"proj", size⟩, [("proj", .directory), ("proj/logs", .directory)]) := by rfl
  have habsent : Disk.place? [("proj", .directory), ("proj/logs", .directory)]
      (journalPath "proj") = none := by decide
  have hnone := journal_of_absent (r := ⟨"proj", size⟩) habsent
  have hopened := (opened_of_start hstart hnone.1).2
  obtain ⟨after, hrun, hask⟩ := hopened.report hnone.2 htell hfits
  obtain ⟨v, hv⟩ := h name hne size hfits after hrun
  have hselects := selects_of_sheet (q := { sheet := some name }) htell "" hne ⟨rfl, rfl, rfl, rfl⟩
  rw [decide_eq_false hcut] at hselects
  rw [hask, Query.select_const hselects] at hv
  cases hv

end Log

end Spreadsheet
