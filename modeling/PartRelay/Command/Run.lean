import PartRelay.Command.Serve
import PartRelay.Command.Split

/-!
# Running a command line
-/

namespace PartRelay

namespace Command

/-- Prints the size of a message part. -/
def runMaxSize (d : Directory) (networkPath : Option Text) : Outcome :=
  match sizeOfParts d networkPath with
  | .error e => .halted d noSize e
  | .ok size => { directory := d, output := Text.ofInt size ++ "\n" }

/-- The files that a command may touch, as far as the files that are known tell. -/
def paths (d : Directory) : Command → List Path
  | .serve a =>
    let config := a.config.toList.map .ofText
    match chosenSettings d a with
    | .error _ => config
    | .ok s =>
      config ++ [.ofText s.networkPath] ++ s.logDirectory.toList.map fun directory =>
        LogFile.pathOf (.ofText directory) s.runId EventLog.defaultRole
  | .maxSize networkPath => networkPath.toList.map .ofText
  | .split a => [a.networkPath, a.input, a.output].filterMap fun path => path.map .ofText

def run (machine : Machine) (d : Directory) : Command → Outcome
  | .serve a => runServe machine d a
  | .maxSize networkPath => runMaxSize d networkPath
  | .split a => runSplit machine d a

end Command

namespace CommandLine

/-- Runs the command, unless the level of notices stands for nothing. -/
def run (machine : Command.Machine) (d : Directory) (line : CommandLine) : Command.Outcome :=
  match Command.threshold line.logLevel with
  | .error e => .broken d (.level e)
  | .ok _ => line.command.run machine d

/-- The lines of the notices that a command line asks to see. -/
def shown (line : CommandLine) (o : Command.Outcome) : List Text :=
  match Command.threshold line.logLevel with
  | .error _ => []
  | .ok threshold => Command.shownLines threshold o.notices

end CommandLine

end PartRelay
