import Spreadsheet.Project.Host
import Mathlib.Data.List.Basic

/-! # Directories and files on a disk

A directory that has been made is there with all that it lies in (`holds_of_makeDirectory`), and
making it again changes nothing. What is written at the end of a file in such a directory comes after
what the file held (`exists_append`). -/

namespace Spreadsheet

namespace Path

/-! ### Paths and their names -/

/-- A name that paths keep. -/
def IsName (name : List Char) : Prop :=
  '/' ∉ name ∧ name ≠ [] ∧ name ≠ ['.']

/-- What may stand before the first name of a path. -/
def IsRoot (root : List Char) : Prop :=
  root = [] ∨ root = ['/'] ∨ root = ['/', '/']

theorem not_mem_of_mem_splitOn {cs : List Char} :
    ∀ name ∈ cs.splitOn '/', '/' ∉ name := by
  induction cs with
  | nil => simp
  | cons c cs ih =>
    rw [List.splitOn_cons_eq_if_modifyHead]
    split
    · exact List.forall_mem_cons.mpr ⟨by simp, ih⟩
    · next hc =>
      cases hsplit : cs.splitOn '/' with
      | nil => simp
      | cons name names =>
        rw [hsplit] at ih
        obtain ⟨hname, hnames⟩ := List.forall_mem_cons.mp ih
        have hne : '/' ≠ c := fun heq => hc (beq_iff_eq.mpr heq.symm)
        exact List.forall_mem_cons.mpr ⟨by simp [hne, hname], hnames⟩

theorem isName_parts (path : String) : ∀ name ∈ parts path, IsName name := fun name h => by
  obtain ⟨hmem, hname⟩ := List.mem_filter.mp h
  exact ⟨not_mem_of_mem_splitOn name hmem, by simpa using hname⟩

theorem isRoot_root (path : String) : IsRoot (root path) := by
  obtain ⟨n, hn⟩ : ∃ n, path.toList.takeWhile (· = '/') = List.replicate n '/' := by
    refine ⟨_, List.eq_replicate_length.mpr fun c hc => ?_⟩
    have hall := List.all_eq_true.mp (List.all_takeWhile (p := (· = '/')) (l := path.toList)) c hc
    simpa using hall
  simp only [root, hn, List.length_replicate, IsRoot]
  split
  · next h => simp [h, List.replicate]
  · cases n <;> simp [List.replicate]

/-- Names between slashes are told apart again. -/
theorem filter_splitOn_intercalate {names : List (List Char)} (h : ∀ name ∈ names, IsName name) :
    ((['/'].intercalate names).splitOn '/').filter (fun name => name ≠ [] && name ≠ ['.'])
      = names := by
  by_cases hnames : names = []
  · subst hnames
    rfl
  · rw [List.splitOn_intercalate '/' (fun name hmem => (h name hmem).1) hnames, List.filter_eq_self]
    exact fun name hmem => by simpa using (h name hmem).2

variable {r : List Char} {names : List (List Char)}

theorem filter_splitOn_root (hr : IsRoot r) (cs : List Char) :
    ((r ++ cs).splitOn '/').filter (fun name => name ≠ [] && name ≠ ['.'])
      = (cs.splitOn '/').filter (fun name => name ≠ [] && name ≠ ['.']) := by
  have hslash : ∀ cs : List Char, (('/' :: cs).splitOn '/') = [] :: cs.splitOn '/' := fun cs =>
    List.splitOn_cons_eq_if_modifyHead _ _
  rcases hr with rfl | rfl | rfl
  · rfl
  · rw [List.singleton_append, hslash]
    rfl
  · rw [List.cons_append, List.singleton_append, hslash, hslash]
    rfl

theorem parts_ofParts (hr : IsRoot r) (h : ∀ name ∈ names, IsName name) :
    parts (ofParts r names) = names := by
  have hfilter := filter_splitOn_root hr (['/'].intercalate names)
  rw [filter_splitOn_intercalate h] at hfilter
  simp only [ofParts]
  split
  · next hempty =>
    rw [List.isEmpty_iff] at hempty
    rw [hempty] at hfilter
    exact (by rfl : parts "." = []).trans hfilter
  · rw [parts, String.toList_ofList]
    exact hfilter

theorem root_ofParts (hr : IsRoot r) (h : ∀ name ∈ names, IsName name) :
    root (ofParts r names) = r := by
  have hnames : (['/'].intercalate names).takeWhile (· = '/') = [] := by
    cases names with
    | nil => rfl
    | cons name rest =>
      obtain ⟨hslash, hne, -⟩ := h name (by simp)
      cases name with
      | nil => contradiction
      | cons c cs =>
        have hc : c ≠ '/' := fun heq => hslash (by simp [heq])
        cases rest <;> simp [List.intercalate, hc]
  simp only [ofParts]
  split
  · next hempty =>
    have hr : r = [] := (List.append_eq_nil_iff.mp (List.isEmpty_iff.mp hempty)).1
    rw [hr]
    rfl
  · rw [root, String.toList_ofList]
    rcases hr with rfl | rfl | rfl
    · simp [hnames]
    · simp [hnames]
    · simp [hnames]

theorem ancestors_normalize (path : String) : ancestors (normalize path) = ancestors path := by
  unfold ancestors normalize
  rw [parts_ofParts (isRoot_root path) (isName_parts path),
    root_ofParts (isRoot_root path) (isName_parts path)]

theorem isName_join (directory name : String) :
    ∀ x ∈ parts directory ++ parts name, IsName x :=
  List.forall_mem_append.mpr ⟨isName_parts directory, isName_parts name⟩

theorem parts_join (directory name : String) :
    parts (join directory name) = parts directory ++ parts name :=
  parts_ofParts (isRoot_root directory) (isName_join directory name)

theorem root_join (directory name : String) : root (join directory name) = root directory :=
  root_ofParts (isRoot_root directory) (isName_join directory name)

end Path

namespace Disk

/-- The directory that a name in a directory lies in. -/
theorem parent_join {directory name : String} {x : List Char} (hname : Path.parts name = [x])
    (hdirectory : Path.parts directory ≠ []) :
    parent (Path.join directory name) = Path.normalize directory := by
  obtain ⟨n, hn⟩ : ∃ n, (Path.parts directory).length = n + 1 :=
    Nat.exists_eq_succ_of_ne_zero fun h => hdirectory (List.length_eq_zero_iff.mp h)
  have htake : (Path.parts directory ++ [x]).take (n + 1) = Path.parts directory := by
    rw [← hn, List.take_left]
  rw [parent, Path.ancestors, Path.parts_join, Path.root_join, hname, List.length_append, hn,
    List.length_singleton, List.range_succ, List.map_append, List.map_singleton,
    List.dropLast_concat, List.range_succ, List.map_append, List.map_singleton,
    List.getLast?_concat, htake]
  rfl

variable {d e : Disk} {path : String}

/-! ### Directories -/

/-- **A directory is there**, with all that it lies in. -/
def Holds (d : Disk) (path : String) : Prop :=
  ∀ p ∈ Path.ancestors path, d.entry? p = some .directory

/-- Making a directory that is there changes nothing. -/
theorem Holds.makeDirectory (h : d.Holds path) : d.makeDirectory path = .ok d := by
  unfold Disk.makeDirectory
  unfold Holds at h
  generalize Path.ancestors path = ps at h ⊢
  induction ps with
  | nil => rfl
  | cons p ps ih =>
    obtain ⟨hp, hps⟩ := List.forall_mem_cons.mp h
    rw [List.foldlM_cons, hp]
    exact ih hps

/-- A directory or a file at a path; all else stays as it is. -/
theorem entry?_insert {p : String} (hp : Path.straight p ≠ ".") (entry : Entry) (q : String) :
    Disk.entry? (d.insert (Path.straight p) entry) q
      = if Path.straight q = Path.straight p then some entry else d.entry? q := by
  simp only [Disk.entry?]
  by_cases hsame : Path.straight q = Path.straight p
  · rw [if_pos hsame, hsame, if_neg hp, OrderedMap.get?_insert_self]
  · rw [if_neg hsame, OrderedMap.get?_insert_of_ne hsame]

theorem ne_dot_of_entry? {p : String} (h : d.entry? p ≠ some .directory) : Path.straight p ≠ "." :=
  fun hdot => h (by rw [Disk.entry?, hdot]; rfl)

/-- **A directory that has been made** is there, and so are all directories that were. -/
theorem holds_of_makeDirectory (h : d.makeDirectory path = .ok e) :
    e.Holds path ∧ ∀ p, d.entry? p = some .directory → e.entry? p = some .directory := by
  unfold Disk.makeDirectory at h
  unfold Holds
  generalize Path.ancestors path = ps at h ⊢
  induction ps generalizing d with
  | nil =>
    obtain rfl := Except.ok.inj h
    exact ⟨by simp, fun _ hp => hp⟩
  | cons p ps ih =>
    rw [List.foldlM_cons] at h
    cases hp : d.entry? p with
    | none =>
      rw [hp] at h
      have hne : d.entry? p ≠ some .directory := by simp [hp]
      have hdot := ne_dot_of_entry? hne
      obtain ⟨hps, hkeep⟩ := ih h
      have hinsert := entry?_insert (d := d) hdot .directory
      refine ⟨List.forall_mem_cons.mpr ⟨hkeep p (by rw [hinsert, if_pos rfl]), hps⟩,
        fun q hq => hkeep q ?_⟩
      rw [hinsert, hq, ite_self]
    | some entry =>
      cases entry with
      | directory =>
        rw [hp] at h
        obtain ⟨hps, hkeep⟩ := ih h
        exact ⟨List.forall_mem_cons.mpr ⟨hkeep p hp, hps⟩, hkeep⟩
      | file octets =>
        rw [hp] at h
        cases h

/-! ### Files -/

/-- **What is written at the end of a file** in a directory that is there comes after what the file
held. -/
theorem exists_append {directory : String} (hparent : parent path = Path.normalize directory)
    (hdirectory : d.Holds directory) (hpath : d.entry? path ≠ some .directory)
    (octets : List UInt8) : ∃ e, d.append path octets = some e ∧
      e.entry? path = some (.file ((d.read? path).getD [] ++ octets)) ∧ e.Holds directory := by
  have hmade : d.makeDirectory (parent path) = .ok d := by
    rw [hparent]
    refine Holds.makeDirectory ?_
    rw [Holds, Path.ancestors_normalize]
    exact hdirectory
  have hdot := ne_dot_of_entry? hpath
  refine ⟨d.insert (Path.straight path) (.file ((d.read? path).getD [] ++ octets)), ?_, ?_, ?_⟩
  · rw [Disk.append, Disk.write, hmade]
    simp only [Except.toOption, Option.bind_eq_bind, Option.bind_some, if_neg hpath]
    rfl
  · rw [entry?_insert hdot, if_pos rfl]
  · intro p hp
    rw [entry?_insert hdot, hdirectory p hp]
    split
    · next hsame =>
      refine absurd (hdirectory p hp) ?_
      rw [Disk.entry?, hsame]
      exact hpath
    · rfl

/-! ### The host of a disk -/

variable {time : String}

theorem run_place? (d : Disk) (path : String) :
    ((host time).place? path).run d = pure (d.place? path, d) := rfl

theorem run_read? (d : Disk) (path : String) :
    ((host time).read? path).run d = pure (d.read? path, d) := rfl

theorem run_makeDirectory (h : d.makeDirectory path = .ok e) :
    ((host time).makeDirectory path).run d = pure (.ok (), e) := by
  simp only [host, StateT.run_bind, StateT.run_get, pure_bind, h]
  rfl

theorem run_append {octets : List UInt8} (h : d.append path octets = some e) :
    ((host time).append path octets).run d = pure (true, e) := by
  simp only [host, StateT.run_bind, StateT.run_get, pure_bind, h]
  rfl

end Disk

end Spreadsheet
