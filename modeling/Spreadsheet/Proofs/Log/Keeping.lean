import Spreadsheet.Log.Recorder
import Spreadsheet.Proofs.Project.Disk

/-! # Keeping events on a disk

A recorder that has been started keeps events on a disk as long as no directory is in the journal's
place (`opened_of_start`). Each event that has a line puts it at the end of the journal (`puts_keep`),
and so do events one after the other (`Puts.mapM`, `puts_recordAll`). Queries are answered from what
the journal holds (`Opened.ask`). -/

namespace Spreadsheet

namespace Log

namespace Event

/-- The octets of the line of an event; none if it has no line. -/
def lineOctets (e : Event) : List UInt8 :=
  e.line.toOption.getD []

theorem lineOctets_eq {e : Event} {octets : List UInt8} (h : e.line = .ok octets) :
    e.lineOctets = octets := by
  rw [lineOctets, h]
  rfl

end Event

namespace Recorder

variable {r : Recorder} {d : Disk}

/-! ### Open recorders -/

/-- **A recorder on a disk** where the directory of its journal is there, and no directory is in the
journal's place. -/
structure Opened (r : Recorder) (d : Disk) : Prop where
  directory : d.Holds (directory r.project)
  place : d.entry? (journalPath r.project) ≠ some .directory

/-- What the journal holds. -/
def journal (r : Recorder) (d : Disk) : List UInt8 :=
  (d.read? (journalPath r.project)).getD []

theorem parent_journalPath (project : String) :
    Disk.parent (journalPath project) = Path.normalize (directory project) := by
  have hname : Path.parts "events.ndjson" = ["events.ndjson".toList] := by rfl
  have hlogs : Path.parts "logs" = ["logs".toList] := by rfl
  refine Disk.parent_join hname ?_
  rw [directory, Path.parts_join, hlogs]
  exact List.concat_ne_nil _ _

/-- A recorder that has been started is open, unless a directory is in the journal's place. -/
theorem opened_of_start {time project : String} {size : Option Int} {before : Disk}
    (h : (start (Disk.host time) project size).run before = pure (.ok r, d))
    (hplace : d.entry? (journalPath project) ≠ some .directory) :
    r.project = project ∧ r.Opened d := by
  cases hmake : before.makeDirectory (directory project) with
  | error o =>
    have hrun : (start (Disk.host time) project size).run before = pure (.error o, before) := by
      simp only [start, Disk.host, StateT.run_bind, StateT.run_get, pure_bind, hmake]
      rfl
    rw [hrun] at h
    cases h
  | ok after =>
    have hrun : (start (Disk.host time) project size).run before
        = pure (.ok { project, tailSize := size.getD Journal.defaultTailSize }, after) := by
      simp only [start, StateT.run_bind, Disk.run_makeDirectory hmake, pure_bind]
      rfl
    rw [hrun] at h
    cases h
    exact ⟨rfl, (Disk.holds_of_makeDirectory hmake).1, hplace⟩

/-- A journal that is not there holds nothing. -/
theorem journal_of_absent (h : d.place? (journalPath r.project) = none) :
    d.entry? (journalPath r.project) ≠ some .directory ∧ r.journal d = [] := by
  have hnone : d.entry? (journalPath r.project) = none := Option.map_eq_none_iff.mp h
  refine ⟨by rw [hnone]; simp, ?_⟩
  rw [journal, Disk.read?, hnone]
  rfl

/-! ### What is put at the end of the journal -/

/-- **An action puts octets at the end of the journal**, and gives a result. -/
def Puts {β : Type} (r : Recorder) (action : StateM Disk β) (result : β) (octets : List UInt8) :
    Prop :=
  ∀ d, r.Opened d → ∃ d', action.run d = pure (result, d') ∧ r.Opened d' ∧
    r.journal d' = r.journal d ++ octets

/-- **Keeping an event** that has a line puts the line at the end of the journal. -/
theorem puts_keep (time : String) {e : Event} (hline : e.line = .ok e.lineOctets) :
    r.Puts (r.keep (Disk.host time) e) (.ok ()) e.lineOctets := by
  intro d h
  obtain ⟨d', happend, hentry, hholds⟩ :=
    Disk.exists_append (parent_journalPath r.project) h.directory h.place e.lineOctets
  have hmade := h.directory.makeDirectory
  refine ⟨d', ?_, ⟨hholds, by rw [hentry]; simp⟩, ?_⟩
  · rw [Recorder.keep, hline]
    simp only [StateT.run_bind, Disk.run_makeDirectory hmade, pure_bind, Disk.run_append happend]
    rfl
  · rw [Recorder.journal, Disk.read?, hentry]
    rfl

/-- **Actions one after the other** put all their octets there, in order. -/
theorem Puts.mapM {α β : Type} {f : α → StateM Disk β} {result : α → β} {octets : α → List UInt8}
    {l : List α} (hl : ∀ a ∈ l, r.Puts (f a) (result a) (octets a)) :
    r.Puts (l.mapM f) (l.map result) (l.map octets).flatten := by
  induction l with
  | nil => exact fun d h => ⟨d, rfl, h, (List.append_nil _).symm⟩
  | cons a l ih =>
    obtain ⟨ha, hrest⟩ := List.forall_mem_cons.mp hl
    intro d h
    obtain ⟨d₁, hfirst, hopened, hjournal⟩ := ha d h
    obtain ⟨d₂, hruns, hlast, hall⟩ := ih hrest d₁ hopened
    refine ⟨d₂, ?_, hlast, ?_⟩
    · simp only [List.mapM_cons, StateT.run_bind, hfirst, pure_bind, hruns]
      rfl
    · rw [hall, hjournal, List.map_cons, List.flatten_cons, List.append_assoc]

theorem puts_record (time : String) {e : Event}
    (hline : e.prepared.line = .ok e.prepared.lineOctets) :
    r.Puts (record (Disk.host time) (some r) e) none e.prepared.lineOctets := by
  intro d h
  obtain ⟨d', hkeep, hopened, hjournal⟩ := puts_keep time hline d h
  refine ⟨d', ?_, hopened, hjournal⟩
  simp only [record, StateT.run_bind, hkeep, pure_bind]
  rfl

/-- **Recording events** that have lines once they are prepared leaves none of them out. -/
theorem puts_recordAll (time : String) {es : List Event}
    (hlines : ∀ e ∈ es, e.prepared.line = .ok e.prepared.lineOctets) :
    r.Puts (recordAll (Disk.host time) (some r) es) []
      (es.map fun e => e.prepared.lineOctets).flatten := by
  intro d h
  have hall := Puts.mapM fun e he => puts_record (r := r) time (hlines e he)
  obtain ⟨d', hruns, hopened, hjournal⟩ := hall d h
  refine ⟨d', ?_, hopened, hjournal⟩
  have hnone : (es.map fun _ => (none : Option NotKept)).filterMap id = [] := by simp
  simp only [recordAll, StateT.run_bind, hruns, pure_bind]
  rw [hnone]
  rfl

/-! ### Answers -/

/-- Nothing answers a query in an empty journal. -/
theorem answer_nil (q : Query) (size : Int) : q.answer size [] = .ok [] := by
  have htail : Journal.tail size [] = [] := List.suffix_nil.mp (Journal.tail_suffix size [])
  rw [Query.answer, Journal.values, htail]
  rfl

/-- **A query is answered** from what the journal holds. -/
theorem Opened.ask (h : r.Opened d) (time : String) (q : Query) :
    (r.ask (Disk.host time) q).run d = pure (some (q.answer r.tailSize (r.journal d)), d) := by
  simp only [Recorder.ask, StateT.run_bind, Disk.run_place?, pure_bind]
  cases hentry : d.entry? (journalPath r.project) with
  | none =>
    have hplace : d.place? (journalPath r.project) = none := by rw [Disk.place?, hentry]; rfl
    rw [hplace, (journal_of_absent hplace).2, answer_nil]
    rfl
  | some entry =>
    cases entry with
    | directory => exact absurd hentry h.place
    | file octets =>
      have hplace : d.place? (journalPath r.project) = some .file := by
        rw [Disk.place?, hentry]
        rfl
      rw [hplace]
      simp only [StateT.run_bind, Disk.run_read?, pure_bind]
      rfl

end Recorder

end Log

end Spreadsheet
