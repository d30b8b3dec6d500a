import Spreadsheet.Proofs.Log.Forms
import Spreadsheet.Proofs.Log.Journal
import Spreadsheet.Proofs.Log.Keeping

/-! # Journals read back

The lines of events that hold data are read, as far back as they fit, as the forms of the events
(`exists_values_fitting`). So a journal that was not there before the events were kept gives back the
events at its end, the oldest first (`values_kept`). -/

namespace Spreadsheet

namespace Log

/-! ### Lines of events -/

namespace Event

theorem IsData.line_eq {e : Event} (h : e.IsData) : e.line = .ok e.lineOctets := by
  obtain ⟨t, -, -, hline, -, -⟩ := h.exists_line
  rw [lineOctets_eq hline, hline]

theorem IsData.isLine {e : Event} (h : e.IsData) : Journal.IsLine e.lineOctets := by
  obtain ⟨t, -, -, hline, hprintable, -⟩ := h.exists_line
  rw [lineOctets_eq hline]
  exact Journal.isLine_encode hprintable

end Event

/-- **The longest end of events** whose lines have at most `size` octets together. -/
def fitting (size : Int) (es : List Event) : List Event :=
  Journal.longestEnd (fun e => e.lineOctets.length) size es

/-- The lines of events that hold data are read as their forms. -/
theorem exists_values {es : List Event} (h : ∀ e ∈ es, e.IsData) : ∃ values,
    es.mapM Event.form = .ok values ∧ Journal.valuesOfLines
      (Text.lines (Utf8.decodeLossy (es.map Event.lineOctets).flatten)) = .ok values := by
  induction es with
  | nil => exact ⟨[], rfl, rfl⟩
  | cons e es ih =>
    obtain ⟨he, hes⟩ := List.forall_mem_cons.mp h
    obtain ⟨values, hforms, hvalues⟩ := ih hes
    obtain ⟨t, v, hform, hline, hprintable, hread⟩ := he.exists_line
    refine ⟨v :: values, ?_, ?_⟩
    · rw [List.mapM_cons, hform, hforms]
      rfl
    · rw [List.map_cons, List.flatten_cons, Event.lineOctets_eq hline]
      exact Journal.valuesOfLines_line hprintable hread hvalues

/-- **The lines of events** are read, as far back as they fit, as the forms of the events. -/
theorem exists_values_fitting {es : List Event} (h : ∀ e ∈ es, e.IsData) {size : Int}
    (hsize : 0 ≤ size) : ∃ values, (fitting size es).mapM Event.form = .ok values ∧
      Journal.values size (es.map Event.lineOctets).flatten = .ok values := by
  have hlines : ∀ l ∈ es.map Event.lineOctets, Journal.IsLine l :=
    List.forall_mem_map.mpr fun e he => (h e he).isLine
  obtain ⟨values, hforms, hvalues⟩ :=
    exists_values fun e he => h e ((Journal.longestEnd_suffix es).mem he)
  refine ⟨values, hforms, ?_⟩
  rw [Journal.values, Journal.tail_flatten hlines hsize, Journal.longestEnd_map]
  exact hvalues

/-! ### Events read back -/

open Recorder in
/-- **What is written is read back**: of a journal that was not there before the events were kept in
it, in order, exactly the forms of the events at the end whose lines fit, the oldest first. -/
theorem values_kept {time project : String} {size : Option Int} {before d : Disk} {r : Recorder}
    (hstart : (start (Disk.host time) project size).run before = (.ok r, d))
    (habsent : d.place? (journalPath project) = none) (hsize : 0 ≤ r.tailSize)
    {es : List Event} (hes : ∀ e ∈ es, e.IsData) : ∃ after values,
      (es.mapM (r.keep (Disk.host time))).run d = (es.map fun _ => .ok (), after) ∧
      (fitting r.tailSize es).mapM Event.form = .ok values ∧
      Journal.values r.tailSize ((after.read? (journalPath project)).getD []) = .ok values := by
  have hnone : d.entry? (journalPath project) ≠ some .directory := by
    rw [Option.map_eq_none_iff.mp habsent]
    simp
  obtain ⟨rfl, hopened⟩ := opened_of_start hstart hnone
  obtain ⟨after, hkept, -, hjournal⟩ :=
    Puts.mapM (fun e he => puts_keep time (hes e he).line_eq) d hopened
  obtain ⟨values, hforms, hvalues⟩ := exists_values_fitting hes hsize
  rw [(journal_of_absent habsent).2, List.nil_append] at hjournal
  refine ⟨after, values, hkept, hforms, ?_⟩
  rw [← journal, hjournal]
  exact hvalues

/-- Two events: one whose texts break lines, with a list in its context, and a short one. -/
def twoEvents : List Event :=
  [{ time := "2024-05-01T10:00:00.000000Z", level := .warning, kind := .cellError
     context := [(.text "sheet_name", .text "a\u2028b"), (.text "cell", .text "B2"),
       (.text "inputs", .list [.int (-7), .null, .text "\"\\"])]
     message := "line\nbreak", code := some "formula_eval_error" },
   { time := "2024-05-01T10:00:01.000000Z", level := .info, kind := .sheetRejected }]

theorem isData_twoEvents : ∀ e ∈ twoEvents, e.IsData := by
  have htext : ∀ s, Json.Data (.text s) := fun s => .scalar (Event.writable_text s)
  refine List.forall_mem_cons.mpr ⟨⟨?_, Event.writable_digit (by decide)⟩,
    List.forall_mem_singleton.mpr ⟨?_, Event.writable_digit (by decide)⟩⟩
  · show Json.Data (.ofFields [("sheet_name", .text "a\u2028b"), ("cell", .text "B2"),
      ("inputs", .list [.int (-7), .null, .text "\"\\"])])
    refine .map (by decide) ?_
    refine List.forall_mem_cons.mpr ⟨htext _, List.forall_mem_cons.mpr ⟨htext _,
      List.forall_mem_singleton.mpr (.list ?_)⟩⟩
    exact List.forall_mem_cons.mpr ⟨.scalar (Event.writable_digit (by decide)),
      List.forall_mem_cons.mpr ⟨.scalar fun _ h => (by cases h),
        List.forall_mem_singleton.mpr (htext _)⟩⟩
  · show Json.Data (.ofFields [])
    exact .map List.nodup_nil (by simp)

open Recorder in
/-- In a window of 300 octets, where one of the two events fits. -/
theorem values_kept_twoEvents :
    (start (Disk.host "") "proj" (some 300)).run [] = (.ok ⟨"proj", 300⟩,
      [("proj", .directory), ("proj/logs", .directory)]) ∧
    (∀ e ∈ twoEvents, e.IsData) ∧ ∃ after values,
      (twoEvents.mapM (keep (Disk.host "") ⟨"proj", 300⟩)).run
        [("proj", .directory), ("proj/logs", .directory)] = ([.ok (), .ok ()], after) ∧
      (fitting 300 twoEvents).mapM Event.form = .ok values ∧
      Journal.values 300 ((after.read? (journalPath "proj")).getD []) = .ok values := by
  have hstart : (start (Disk.host "") "proj" (some 300)).run [] = (.ok ⟨"proj", 300⟩,
      [("proj", .directory), ("proj/logs", .directory)]) := by rfl
  have habsent : Disk.place? [("proj", .directory), ("proj/logs", .directory)]
      (journalPath "proj") = none := by decide
  exact ⟨hstart, isData_twoEvents, values_kept hstart habsent (by decide) isData_twoEvents⟩

end Log

end Spreadsheet
