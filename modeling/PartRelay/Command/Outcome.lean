import PartRelay.Command.Notice
import PartRelay.Config.Network
import PartRelay.Files.Directory
import PartRelay.Http.Server
import PartRelay.Part.Basic
import PartRelay.Yaml.Error

/-!
# Outcomes

What a command leaves behind: the files, the output, the notices, and how it ended. Faults of what a
command is given are reported in a notice; any other fault breaks the command off.
-/

namespace PartRelay.Command

/-- What a command runs on: the time, in milliseconds and in nanoseconds, the memory, and how many
levels JSON may have. -/
structure Machine where
  ms : Int
  ns : Int
  memory : Memory
  levels : Json.Levels

/-- What breaks a command off. -/
inductive Break where
  | level (cause : LevelError)
  | file (cause : Directory.Error)
  | yaml (cause : Yaml.ReadError)
  | setting (cause : Json.IntegerError)
  | event (cause : Json.WriteError)
  | server (cause : Http.BuildError)
  | part (cause : Part.WriteError)
  /-- An option that needs a path has no value. -/
  | noPath
  /-- An option that needs a number has no value. -/
  | noNumber

def Break.message : Break → Text
  | .level cause => cause.message
  | .file cause => cause.message
  | .yaml cause => cause.message
  | .setting cause => cause.message
  | .event cause => cause.message
  | .server cause => cause.message
  | .part cause => cause.message
  | .noPath => "expected str, bytes or os.PathLike object, not list"
  | .noNumber => "'<=' not supported between instances of 'int' and 'list'"

/-- Why a command comes to an early end: a fault that is reported, or a break. -/
inductive Halt where
  | reported (reason : Text)
  | broken (cause : Break)

inductive Ending where
  | exit (code : Nat)
  | broken (cause : Break)

structure Outcome where
  directory : Directory
  ending : Ending := .exit 0
  output : Text := []
  notices : List Notice := []
  /-- The server that has been run. -/
  server : Option Http.Server := none

/-- A fault that is reported. The exit code is 1. -/
def Outcome.failed (d : Directory) (report : Text) : Outcome :=
  { directory := d, ending := .exit 1, notices := [⟨.error, report⟩] }

def Outcome.broken (d : Directory) (cause : Break) : Outcome :=
  { directory := d, ending := .broken cause }

/-- The outcome of an early end; `report` says what the reason is of. -/
def Outcome.halted (d : Directory) (report : Text → Text) : Halt → Outcome
  | .reported reason => .failed d (report reason)
  | .broken cause => .broken d cause

/-! ## Sizes -/

/-- The report that no size of a part can be derived. -/
def noSize (reason : Text) : Text := "failed to derive max message length: " ++ reason

/-- The size of a part by the network definition at a path. A path of no file breaks the command
off. -/
def sizeOfParts (d : Directory) (networkPath : Option Text) : Except Halt Int :=
  match networkPath with
  | none => .error (.broken .noPath)
  | some path =>
    match Network.maxFragmentSize d (.ofText path) with
    | .ok size => .ok size
    | .error (.load (.name cause)) => .error (.broken (.file (.name cause)))
    | .error e => .error (.reported e.message)

end PartRelay.Command
