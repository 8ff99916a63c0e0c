import PartRelay.Files.Directory
import PartRelay.Json.Printer
import PartRelay.Text.Utf8

/-!
# Event logs

A log is a file with a line for each event: a JSON object with the time, the run, the event, the
role, and the fields of the event. A closed log takes no more events.
-/

namespace PartRelay

/-- An event and its own fields. -/
structure Event where
  name : Text
  fields : Table Text Json := []

structure EventLog where
  /-- How many levels deep the fields of an event may be nested. -/
  levels : Nat
  runId : Text
  role : Text
  /-- The text that has been appended. -/
  text : Text := []
  closed : Bool := false

namespace EventLog

def defaultRole : Text := "server"

/-! ## Events -/

/-- The object of an event at time `now`. The event's own fields are laid over the common ones. -/
def object (log : EventLog) (now : Int) (e : Event) : Table Text Json :=
  Table.update
    [("ts_ms", .int now), ("run_id", .string log.runId), ("event", .string e.name),
     ("role", .string log.role)]
    e.fields

/-- The line of an event, as long as its fields can be written. The event itself is a level more. -/
def line (log : EventLog) (now : Int) (e : Event) : Except Json.WriteError Text :=
  ((Json.object (log.object now e)).renderWithin? (log.levels + 1)).map (· ++ "\n")

/-- Appends an event. Its line has to be one that can be written, also where the log is closed. -/
def append (log : EventLog) (now : Int) (e : Event) : Except Json.WriteError EventLog :=
  match log.line now e with
  | .error e => .error e
  | .ok line => .ok (if log.closed then log else { log with text := log.text ++ line })

/-- Appends events up to the first that cannot be written: what went wrong, and the log. -/
def appendAll (log : EventLog) (now : Int) :
    List Event → Except Json.WriteError Unit × EventLog
  | [] => (.ok (), log)
  | e :: events =>
    match log.append now e with
    | .error e => (.error e, log)
    | .ok log => log.appendAll now events

def close (log : EventLog) : EventLog := { log with closed := true }

/-- The event that a server has started. -/
def serverStart (address : Text) (maxFragmentSize : Int) (networkPath : Text) : Event :=
  { name := "server_start"
    fields := [("addr", .string address), ("max_fragment_size", .int maxFragmentSize),
      ("ndf_path", .string networkPath)] }

/-- The lines of a log's text, without their ends. -/
def lines (t : Text) : List Text := (t.splitOn '\n').filter (!·.isEmpty)

end EventLog

/-! ## Files -/

/-- A log with its file and what the file held before. -/
structure LogFile where
  log : EventLog
  path : Path
  before : Bytes

namespace LogFile

/-- The file of a log below a directory. -/
def pathOf (directory : Path) (runId role : Text) : Path :=
  directory.append (.ofText (Text.join [runId, "_", role, ".jsonl"]))

/-- Opens a log below a directory. Directory and file are made where they are not there. -/
def create (levels : Nat) (d : Directory) (directory : Path) (runId role : Text) :
    Except Directory.Error (LogFile × Directory) :=
  match d.makeDirectories directory with
  | .error e => .error e
  | .ok d =>
    match d.openToAppend (pathOf directory runId role) with
    | .error e => .error e
    | .ok (before, d) =>
      .ok ({ log := { levels, runId, role }, path := pathOf directory runId role, before }, d)

def content (f : LogFile) : Bytes := f.before ++ Utf8.write f.log.text

/-- Puts the log's text into its file. -/
def save (f : LogFile) (d : Directory) : Except Directory.Error Directory :=
  d.write f.path f.content

end LogFile

end PartRelay
