import Spreadsheet.OrderedMap
import Spreadsheet.Path

/-!
# Hosts

What a program needs of the computer that it runs on: files and directories, and the time. A host
gives it in a monad of its own. `Disk` is a host in memory: its files and directories are a value, and
its time stands still.

Main statement: `Disk.read?_write` (what has been written to a file is read back).
-/

namespace Spreadsheet

/-- What stands at a path. -/
inductive Place where
  | file
  | directory
  deriving DecidableEq, Repr

/-- Why a directory cannot be made: a file is in its place, or in that of a directory that it would
lie in. -/
inductive Obstacle where
  | file
  | fileAbove
  deriving DecidableEq, Repr

/-- Files, directories and the time. -/
structure Host (m : Type → Type) where
  /-- What stands at a path, if anything does. -/
  place? : String → m (Option Place)
  /-- The content of a file; `none` if there is no file. -/
  read? : String → m (Option (List UInt8))
  /-- Writes a file; tells whether that was possible. -/
  write : String → List UInt8 → m Bool
  /-- Writes at the end of a file, which is made if there is none; tells whether that was
  possible. -/
  append : String → List UInt8 → m Bool
  /-- Makes a directory with those that it lies in, as far as they are not there. -/
  makeDirectory : String → m (Except Obstacle Unit)
  /-- The present time in full, to the microsecond. -/
  now : m String
  /-- Nanoseconds from some fixed moment on. -/
  clock : m Nat

/-- A file with its content, or a directory. -/
inductive Entry where
  | file (octets : List UInt8)
  | directory
  deriving DecidableEq, Repr

/-- Files and directories by the paths that lead straight to them. -/
abbrev Disk := OrderedMap String Entry

namespace Disk

/-- What stands at a path. The present directory is always there. -/
def entry? (d : Disk) (path : String) : Option Entry :=
  let path := Path.straight path
  if path = "." then some .directory else d.get? path

/-- What stands at a path, without its content. -/
def place? (d : Disk) (path : String) : Option Place :=
  (d.entry? path).map fun
    | .file _ => .file
    | .directory => .directory

/-- The content of a file. -/
def read? (d : Disk) (path : String) : Option (List UInt8) :=
  match d.entry? path with
  | some (.file octets) => some octets
  | _ => none

/-- The disk with a directory, unless a file is in the way. -/
def makeDirectory (d : Disk) (path : String) : Except Obstacle Disk :=
  (Path.ancestors path).foldlM (fun d p =>
    match d.entry? p with
    | none => .ok (d.insert (Path.straight p) .directory)
    | some .directory => .ok d
    | some (.file _) => .error (if p = Path.normalize path then .file else .fileAbove)) d

/-- The directory that a path lies in. -/
def parent (path : String) : String :=
  ((Path.ancestors path).dropLast.getLast?).getD "."

/-- The disk with a file and the directories that it lies in, unless something else is in the way. -/
def write (d : Disk) (path : String) (octets : List UInt8) : Option Disk := do
  let d ← (d.makeDirectory (parent path)).toOption
  if d.entry? path = some .directory then none
  else return d.insert (Path.straight path) (.file octets)

/-- The disk with more at the end of a file. -/
def append (d : Disk) (path : String) (octets : List UInt8) : Option Disk :=
  d.write path ((d.read? path).getD [] ++ octets)

/-- The paths of everything below a directory, sorted. -/
def below (d : Disk) (directory : String) : List String :=
  let names := Path.parts (Path.straight directory)
  (d.keys.filter fun path =>
    let own := Path.parts path
    names.isPrefixOf own && names.length < own.length).mergeSort fun a b => decide (a ≤ b)

/-- Replaces the disk, if there is another one; tells whether there was. -/
def replace : Option Disk → StateM Disk Bool
  | some d => do set d; return true
  | none => return false

/-- The host whose time is always `time`. -/
def host (time : String) : Host (StateM Disk) where
  place? path := return (← get).place? path
  read? path := return (← get).read? path
  write path octets := do replace ((← get).write path octets)
  append path octets := do replace ((← get).append path octets)
  makeDirectory path := do
    match (← get).makeDirectory path with
    | .ok d => set d; return .ok ()
    | .error o => return .error o
  now := return time
  clock := return 0

theorem read?_write {d e : Disk} {path : String} {octets : List UInt8}
    (h : d.write path octets = some e) (hpath : Path.straight path ≠ ".") :
    e.read? path = some octets := by
  simp only [write, Option.bind_eq_bind, Option.bind_eq_some_iff] at h
  obtain ⟨d', -, h⟩ := h
  split at h
  · simp at h
  · simp only [pure, Option.some.injEq] at h
    subst h
    simp [read?, entry?, hpath, OrderedMap.get?_insert_self]

end Disk

end Spreadsheet
