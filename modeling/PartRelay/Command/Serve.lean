import PartRelay.Command.Arguments
import PartRelay.Command.Outcome
import PartRelay.Config.Network
import PartRelay.Config.SettingsFile
import PartRelay.EventLog

/-!
# Starting and stopping the server

The settings come from a file, where one is named, and from the arguments, which go before it. The
server is built with them, its start is logged, and it runs until it is interrupted.
-/

namespace PartRelay.Command

/-! ## Settings -/

/-- A value of the wrong kind or without bounds breaks the command off; any other value without an
integer is reported. -/
def Halt.ofField (e : SettingError) : Halt :=
  match e with
  | .integer .infinite => .broken (.setting .infinite)
  | .integer (.kind name) => .broken (.setting (.kind name))
  | e => .reported e.message

/-- What is past the bounds of a machine breaks the command off. -/
def Halt.ofYaml (e : Yaml.ReadError) : Halt :=
  match e with
  | .codePointOverflow | .placeOverflow => .broken (.yaml e)
  | e => .reported e.message

def Halt.ofLoad (e : Settings.LoadError) : Halt :=
  match e with
  | .lookup cause => .broken (.file cause)
  | .yaml cause => .ofYaml cause
  | .field cause => .ofField cause
  | e => .reported e.message

/-- The fields that the arguments set. -/
def overrides (a : ServeArguments) : Table Text Json :=
  let entry (key : Text) (value : Option Text) : Text × Json :=
    match value with
    | none => (key, .null)
    | some t => (key, .string t)
  [entry "addr" a.address, entry "ndf_path" a.networkPath, entry "log_dir" a.logDirectory]

/-- The settings in the file that is named, the defaults where none is. -/
def namedSettings (d : Directory) (config : Option Text) : Except Halt Settings :=
  match config with
  | none | some [] => .ok {}
  | some path => (Settings.load d true (.ofText path)).mapError .ofLoad

/-- The settings in the file with those of the arguments in their place. -/
def chosenSettings (d : Directory) (a : ServeArguments) : Except Halt Settings := do
  let s ← namedSettings d a.config
  (s.override (overrides a)).mapError .ofField

/-- The settings to serve with, and the size of a message part. -/
def prepare (d : Directory) (a : ServeArguments) : Except Halt (Settings × Int) := do
  let s ← chosenSettings d a
  s.validate.mapError fun e => .reported e.message
  let size ← (Network.maxFragmentSize d (.ofText s.networkPath)).mapError fun e =>
    .reported e.message
  return (s, size)

/-! ## The event log -/

/-- Logs the start of the server where a directory for logs is set. -/
def logStart (machine : Machine) (d : Directory) (s : Settings) (size : Int) :
    Except Break Directory :=
  match s.logDirectory with
  | none => .ok d
  | some directory => do
    let (file, d) ←
      (LogFile.create machine.levels.most d (.ofText directory) s.runId
        EventLog.defaultRole).mapError .file
    let start := EventLog.serverStart s.address size s.networkPath
    let log ← (file.log.append machine.ms start).mapError .event
    ({ file with log }.save d).mapError .file

/-! ## Serving -/

def readyNotice (s : Settings) (size : Int) : Notice :=
  ⟨.info, Text.join
    ["server ready on ", s.address, " (max message length ", Text.ofInt size, " bytes)"]⟩

def stoppedNotice : Notice := ⟨.info, "server stopped"⟩

/-- Starts the server and stops it at the first interruption, with no request in between. -/
def runServe (machine : Machine) (d : Directory) (a : ServeArguments) : Outcome :=
  match prepare d a with
  | .error e => .halted d noSize e
  | .ok (s, size) =>
    match logStart machine d s size with
    | .error e => .broken d e
    | .ok d =>
      match Http.build (.connection machine.memory) machine.levels s size with
      | .error e => .broken d (.server e)
      | .ok server =>
        { directory := d, notices := [readyNotice s size, stoppedNotice], server := some server }

end PartRelay.Command
