import PartRelay.Command.Run
import Std.Time

/-!
# The program

Reads the files that a command may touch, runs the command on them, and writes back what it changed.
-/

namespace PartRelay.Program

def string (t : Text) : String := String.ofList (t.map fun c => Char.ofNat c.val)

/-! ## Files -/

/-- The name of a place. Bytes that are no UTF-8 have none here. -/
def nameOf? (place : Place) : Option String := do
  let names ← place.names.mapM fun name => String.fromUTF8? ⟨name.toArray⟩
  return (if place.fromRoot then "/" else "") ++ "/".intercalate names

/-- What is at a place, none where there is nothing. -/
def readEntry (place : Place) : IO (Option Entry) := do
  let some name := nameOf? place | return none
  match ← (IO.FS.readBinFile name).toBaseIO with
  | .ok content => return some (.file content.toList)
  | .error (.noFileOrDirectory ..) => return none
  | .error _ => return some .directory

/-- Puts what is on the way of a path into the directory. -/
def readPath (d : Directory) (p : Path) : IO Directory :=
  (List.range p.steps.length).foldlM (fun d n => do
    let names := (p.steps.take (n + 1)).map Path.nameBytes
    let .ok place := d.resolve { fromRoot := p.absolute } names | return d
    if place.isTop then return d
    match ← readEntry place with
    | none => return d
    | some entry => return Table.set d place entry) d

/-- The files that a command may touch. Those that a settings file names are read second. -/
def readFiles (c : Command) : IO Directory := do
  let d ← (c.paths []).foldlM readPath []
  (c.paths d).foldlM readPath d

/-- Writes the entries that are not as they were. -/
def writeFiles (before after : Directory) : IO Unit :=
  after.forM fun (place, entry) => do
    let some name := nameOf? place | return
    if Table.get? before place ≠ some entry then
      match entry with
      | .directory => IO.FS.createDirAll name
      | .file content => IO.FS.writeBinFile name ⟨content.toArray⟩

/-! ## Running -/

def usage : Text := Text.join
  ["usage: partrelay [-h] [--log-level LEVEL] COMMAND ...\n\n",
   "  serve     run the part ingestion HTTP server\n",
   "  max-size  print the max fragment size for an NDF\n",
   "  split     split a file into /api/parts request bodies\n"]

/-- The time, and what this program counts on: room for sixteen gigabytes, and some hundred
levels. -/
def machine : IO Command.Machine := do
  let now ← Std.Time.Timestamp.now
  return {
    ms := now.toMillisecondsSinceUnixEpoch.val
    ns := now.toNanosecondsSinceUnixEpoch.val
    memory := { size := 0x400000000, portion_le := by decide, size_lt := by decide }
    levels := ⟨900, by decide⟩ }

/-- Runs a command line and gives the exit code. -/
def execute (line : CommandLine) : IO UInt32 := do
  let before ← readFiles line.command
  let outcome := line.run (← machine) before
  writeFiles before outcome.directory
  IO.print (string outcome.output)
  (line.shown outcome).forM fun notice => do
    let now ← Std.Time.DateTime.now
    IO.eprintln (now.format "uuuu-MM-dd HH:mm:ss,SSS" ++ " - " ++ string notice)
  match outcome.ending with
  | .exit code => return UInt32.ofNat code
  | .broken cause =>
    IO.eprintln (string cause.message)
    return 1

/-- Reads the words of a command line and runs it. -/
def start (words : List Text) : IO UInt32 := do
  match CommandLine.read words with
  | .ok line => execute line
  | .error .help =>
    IO.print (string usage)
    return 0
  | .error (.usage cause) =>
    IO.eprintln (string ("partrelay: error: " ++ cause.message))
    return 2

end PartRelay.Program

def main (arguments : List String) : IO UInt32 :=
  PartRelay.Program.start (arguments.map PartRelay.Text.ofString)
