import Spreadsheet.Proofs.Session.Erasure
import Spreadsheet.Proofs.Session.Requests

/-! # Sequences of requests on any sheet

Whatever formulas a sheet holds, a session reads cells one after the other (`Readings`), each to a
value or to a fault; so what reading a cell keeps holds after all requests. A session that notes
what it runs, with bounds that are large enough, does the same (`readings_after`).

* `readNoted_bounds`: larger bounds make no difference, as they are never met.
* `mirrors_perform`: a request reads cells one after the other. -/

namespace Spreadsheet.Session

/-- Answers a request in a session over a sheet that reads cells by `read` and notes what it
runs. -/
def Request.performNoted (sheet : Sheet) (read : String → NotedRun Scalar) :
    Request → NotedRun Unit :=
  performBy sheet.source sheet.rows sheet.cols read

/-- The cells noted and the state after a request. -/
def Request.nextNoted (sheet : Sheet) (read : String → NotedRun Scalar)
    (noted : List String × State) (request : Request) : List String × State :=
  let ((_, log), s) := StateT.run (StateT.run (request.performNoted sheet read).run noted.1) noted.2
  (log, s)

/-- The cells noted and the state of a session over a sheet after requests, where walks take at most
`steps` steps and `depth` formulas nest. -/
def afterNoted (sheet : Sheet) (steps depth : Nat) (requests : List Request) :
    List String × State :=
  requests.foldl (Request.nextNoted sheet (readNoted sheet.source steps depth)) ([], {})

/-- Cells that are read one after the other, with the formulas that are run. -/
inductive Readings (src : Source) : State → List String → State → Prop
  | nil {s} : Readings src s [] s
  | cons {key r s ran t ran' u} (h : Performs src (.read key r) s ran t)
      (hrest : Readings src t ran' u) : Readings src s (ran ++ ran') u

variable {src : Source} {s t u : State} {ran ran' : List String}

theorem Readings.append (h : Readings src s ran t) (h' : Readings src t ran' u) :
    Readings src s (ran ++ ran') u := by
  induction h with
  | nil => exact h'
  | cons h _ ih =>
    rw [List.append_assoc]
    exact .cons h (ih h')

/-- **What reading a cell keeps** holds after cells have been read. -/
theorem Readings.invariant {p : State → Prop}
    (hp : ∀ {key r s ran t}, Performs src (.read key r) s ran t → p s → p t)
    (h : Readings src s ran t) (hs : p s) : p t := by
  induction h with
  | nil => exact hs
  | cons h _ ih => exact ih (hp h hs)

/-- The computations read the same cells, one after the other, and come to the same; the first notes
what is run. -/
def Mirrors (src : Source) {α : Type} (x : NotedRun α) (y : Run α) : Prop :=
  ∀ s, ∃ r ran t, Notes x s r ran t ∧ Gives y s r t ∧ Readings src s ran t

theorem mirrors_get (src : Source) :
    Mirrors src (getThe State : NotedRun State) (get : Run State) :=
  fun s => ⟨.ok s, [], s, notes_get s, gives_get s, Readings.nil⟩

theorem transfer_mirrors (src : Source) :
    Transfer fun {α} (x : NotedRun α) (y : Run α) => Mirrors src x y where
  result r s := ⟨r, [], s, notes_result r s, gives_result r s, Readings.nil⟩
  bind hx hf s := by
    obtain ⟨r, ran, t, hx, hy, hran⟩ := hx s
    cases r with
    | error f => exact ⟨.error f, ran, t, hx.bind_error, hy.bind_error, hran⟩
    | ok a =>
      obtain ⟨r, ran', u, hf, hg, hran'⟩ := hf a t
      exact ⟨r, ran ++ ran', u, hx.bind hf, hy.bind hg, hran.append hran'⟩

/-- Larger bounds make no difference. -/
theorem readNoted_bounds (hlisted : ∀ l, src.HasFormula l → l ∈ src.formulas) {steps depth : Nat}
    (hsteps : 2 * src.formulas.length + 1 ≤ steps) (hdepth : src.formulas.length ≤ depth) :
    readNoted src steps depth = readNoted src (walkBound src) src.formulas.length := by
  funext label
  refine ExceptT.ext (StateT.ext fun before => StateT.ext fun s => ?_)
  obtain ⟨r, ran, t, hr, ht⟩ := readNoted_performs hlisted hsteps hdepth label s
  obtain ⟨r', ran', t', hr', ht'⟩ := readNoted_performs hlisted le_rfl le_rfl label s
  obtain ⟨he, rfl, rfl⟩ := ht.det ht' rfl
  cases he
  exact (hr before).trans (hr' before).symm

/-- **Reading a cell** and noting what is run, with all bounds that are large enough. -/
theorem mirrors_readNoted (hlisted : ∀ l, src.HasFormula l → l ∈ src.formulas) {steps depth : Nat}
    (hsteps : 2 * src.formulas.length + 1 ≤ steps) (hdepth : src.formulas.length ≤ depth)
    (label : String) : Mirrors src (readNoted src steps depth label) (read src label) := by
  intro s
  rw [readNoted_bounds hlisted hsteps hdepth]
  obtain ⟨r, ran, t, hr, ht⟩ := readNoted_performs hlisted le_rfl le_rfl label s
  have hreadings : Readings src s (ran ++ []) t := .cons ht .nil
  rw [List.append_nil] at hreadings
  exact ⟨r, ran, t, hr, (erases_readNoted src label).gives hr, hreadings⟩

section

variable {sheet : Sheet} {noted : String → NotedRun Scalar}

/-- So it is with requests, as they read cells one after the other. -/
theorem mirrors_perform (hread : ∀ l, Mirrors sheet.source (noted l) (read sheet.source l))
    (request : Request) :
    Mirrors sheet.source (request.performNoted sheet noted) (request.perform sheet) :=
  transfer_performBy (transfer_mirrors _) (mirrors_get _) hread _ _ request

theorem readings_foldl (hread : ∀ l, Mirrors sheet.source (noted l) (read sheet.source l))
    (requests : List Request) (before : List String) (s : State) : ∃ ran,
      Readings sheet.source s ran (requests.foldl (Request.next sheet) s) ∧
        requests.foldl (Request.nextNoted sheet noted) (before, s) =
          (before ++ ran, requests.foldl (Request.next sheet) s) := by
  induction requests generalizing before s with
  | nil => exact ⟨[], .nil, by rw [List.append_nil, List.foldl_nil, List.foldl_nil]⟩
  | cons request requests ih =>
    obtain ⟨r, ran, t, hnoted, hplain, hran⟩ := mirrors_perform hread request s
    obtain ⟨ran', hran', hrest⟩ := ih (before ++ ran) t
    have hnext : Request.next sheet s request = t := congrArg Prod.snd hplain
    have hnoted : Request.nextNoted sheet noted (before, s) request = (before ++ ran, t) := by
      simp only [Request.nextNoted, hnoted before]
    rw [List.foldl_cons, List.foldl_cons, hnext, hnoted, hrest, List.append_assoc]
    exact ⟨ran ++ ran', hran.append hran', rfl⟩

end

/-- **A session reads cells one after the other** on any sheet, and so does one that notes what it
runs. -/
theorem readings_after (sheet : Sheet) (requests : List Request) {steps depth : Nat}
    (hsteps : 2 * sheet.formulas.length + 1 ≤ steps) (hdepth : sheet.formulas.length ≤ depth) :
    ∃ ran, Readings sheet.source {} ran (after sheet requests) ∧
      afterNoted sheet steps depth requests = (ran, after sheet requests) :=
  readings_foldl (mirrors_readNoted (fun _ => Sheet.mem_formulas_of_hasFormula) hsteps hdepth)
    requests [] {}

end Spreadsheet.Session
