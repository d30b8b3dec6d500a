import Spreadsheet.Log.Query
import Spreadsheet.Log.Report
import Spreadsheet.Project.Config
import Spreadsheet.Project.Host

/-!
# Recording events

A recorder keeps the events of a project in the file `logs/events.ndjson` of its directory. Recording
for a program (`record`) never fails it: an event that cannot be kept is passed over, and that is
reported. A program without a recorder keeps no events.
-/

namespace Spreadsheet.Log

/-- Keeps the events of the project in a directory and reads their last `tailSize` octets. -/
structure Recorder where
  project : String
  tailSize : Int := Journal.defaultTailSize

/-- Why an event is not kept. -/
inductive NotKept where
  /-- An integer in the event has too many digits. -/
  | fault (f : Fault)
  /-- The journal's file cannot be written. -/
  | blocked
  deriving Repr

variable {m : Type → Type} [Monad m]

namespace Recorder

/-- The directory of a project's journal. -/
def directory (project : String) : String :=
  Path.join project "logs"

/-- The file of a project's journal. -/
def journalPath (project : String) : String :=
  Path.join (directory project) "events.ndjson"

/-- A recorder for a project, whose directory for the journal is made. -/
def start (host : Host m) (project : String) (tailSize : Option Int) :
    m (Except Obstacle Recorder) := do
  return (← host.makeDirectory (directory project)).map fun () =>
    { project, tailSize := tailSize.getD Journal.defaultTailSize }

/-- Keeps an event as it is. -/
def keep (host : Host m) (r : Recorder) (e : Event) : m (Except NotKept Unit) := do
  match e.line with
  | .error f => return .error (.fault f)
  | .ok octets =>
    let _ ← host.makeDirectory (directory r.project)
    if ← host.append (journalPath r.project) octets then return .ok () else return .error .blocked

/-- What answers a query; the journal's file need not be there, but nothing else may be in its
place. -/
def ask (host : Host m) (r : Recorder) (q : Query) :
    m (Option (Except Query.Failure (List Value))) := do
  match ← host.place? (journalPath r.project) with
  | none => return some (.ok [])
  | some .directory => return none
  | some .file =>
    let octets := (← host.read? (journalPath r.project)).getD []
    return some (q.answer r.tailSize octets)

end Recorder

/-- Keeps an event with its long texts cut, if there is a recorder; gives why it is not kept
otherwise. -/
def record (host : Host m) (r : Option Recorder) (e : Event) : m (Option NotKept) := do
  match r with
  | none => return none
  | some r =>
    match ← r.keep host e.prepared with
    | .ok () => return none
    | .error why => return some why

/-- Keeps events one after the other; gives why those that are not kept are not. -/
def recordAll (host : Host m) (r : Option Recorder) (es : List Event) : m (List NotKept) := do
  return (← es.mapM (record host r)).filterMap id

end Spreadsheet.Log

namespace Spreadsheet.Config

variable {m : Type → Type} [Monad m]

/-- The file of settings in a project's directory. -/
def path (project : String) : String :=
  Path.join project fileName

/-- The settings of the project in a directory. -/
def load (yaml : Yaml.Parser) (host : Host m) (project : String) : m (Except Defect Config) := do
  match ← host.place? (path project) with
  | some .directory => return .error .directory
  | _ => return ofFile yaml (← host.read? (path project))

/-- Why there is no recorder though settings ask for one. -/
inductive NotStarted where
  | setting (e : NotInteger)
  | obstacle (o : Obstacle)
  deriving Repr

/-- The recorder that settings ask for, if they ask for one. -/
def recorder (host : Host m) (project : String) (c : Config) :
    m (Except NotStarted (Option Log.Recorder)) := do
  if !c.logsEvents then return .ok none
  match c.tailSize with
  | .error e => return .error (.setting e)
  | .ok size =>
    match ← Log.Recorder.start host project size with
    | .error o => return .error (.obstacle o)
    | .ok r => return .ok (some r)

end Spreadsheet.Config
