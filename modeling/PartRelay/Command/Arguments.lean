import PartRelay.Command.Options
import PartRelay.Config.Settings
import PartRelay.Fragment

/-!
# Arguments

The command line holds an option of its own, the name of a command, and the options of that command.
-/

namespace PartRelay

structure ServeArguments where
  config : Option Text
  address : Option Text
  networkPath : Option Text
  logDirectory : Option Text
  deriving DecidableEq

/-- The arguments for splitting a file. A path or a number is none where its option is given without
a value. -/
structure SplitArguments where
  networkPath : Option Text
  sender : Text
  input : Option Text
  fingerprint : Option Text
  messageId : Option Int
  messageType : Option Int
  /-- Without a time stamp of its own, `some none`, a message gets the time of the run. -/
  timestampNs : Option (Option Int)
  output : Option Text
  deriving DecidableEq

inductive Command where
  /-- Run the server. -/
  | serve (arguments : ServeArguments)
  /-- Print the size of a message part. -/
  | maxSize (networkPath : Option Text)
  /-- Split a file into the bodies of requests. -/
  | split (arguments : SplitArguments)
  deriving DecidableEq

structure CommandLine where
  logLevel : Text
  command : Command
  deriving DecidableEq

namespace Command

/-! ## Options -/

def generalOptions : List OptionSpec := [{ name := "--log-level" }]

def serveOptions : List OptionSpec :=
  [{ name := "--config" }, { name := "--addr" }, { name := "--ndf" }, { name := "--log-dir" }]

def maxSizeOptions : List OptionSpec := [{ name := "--ndf" }]

def splitOptions : List OptionSpec :=
  [{ name := "--ndf" }, { name := "--sender", required := true },
   { name := "--in", required := true }, { name := "--fingerprint" },
   { name := "--message-id", kind := .integer }, { name := "--message-type", kind := .integer },
   { name := "--timestamp-ns", kind := .integer }, { name := "--out" }]

def defaultLogLevel : Text := "INFO"

/-! ## Commands -/

def ofServe (taken : Taken) : Command :=
  .serve
    { config := taken.text? "--config"
      address := taken.shown? "--addr"
      networkPath := taken.shown? "--ndf"
      logDirectory := taken.shown? "--log-dir" }

def ofMaxSize (taken : Taken) : Command :=
  .maxSize (taken.textOr "--ndf" defaultNetworkPath)

def ofSplit (taken : Taken) : Command :=
  .split
    { networkPath := taken.textOr "--ndf" defaultNetworkPath
      sender := (taken.text? "--sender").getD []
      input := taken.text? "--in"
      fingerprint := taken.text? "--fingerprint"
      messageId := taken.integerOr "--message-id" id 0
      messageType := taken.integerOr "--message-type" id defaultMessageType
      timestampNs := taken.integerOr "--timestamp-ns" some none
      output := taken.text? "--out" }

/-- A kind of command: its name, its options, and what they make of it. -/
structure Form where
  name : Text
  options : List OptionSpec
  build : Taken → Command

def forms : List Form :=
  [⟨"serve", serveOptions, ofServe⟩, ⟨"max-size", maxSizeOptions, ofMaxSize⟩,
   ⟨"split", splitOptions, ofSplit⟩]

/-- Reads a command from its name and the words behind it, together with what is left over. -/
def read (name : Text) (words : List Text) : Except Stop (Command × List Text) :=
  match forms.find? fun form => form.name = name with
  | none => .error (.usage (.unknownCommand name (forms.map (·.name))))
  | some form => (readOptions form.options words).map fun taken => (form.build taken, taken.surplus)

end Command

/-- Reads a command line. All words up to two dashes have to have a meaning to the general options,
also those behind the name of the command. -/
def CommandLine.read (words : List Text) : Except Command.Stop CommandLine :=
  match Command.readWords Command.generalOptions words with
  | .error e => .error (.usage e)
  | .ok (known, rest) =>
    match Command.takeOptions false {} known with
    | .error e => .error e
    | .ok (taken, known) =>
      match known.map (·.source) ++ rest with
      | [] => .error (.usage .noCommand)
      | name :: words =>
        match Command.read name words with
        | .error e => .error e
        | .ok (command, surplus) =>
          match taken.surplus ++ surplus with
          | [] => .ok
            { logLevel := (taken.text? "--log-level").getD Command.defaultLogLevel, command }
          | words => .error (.usage (.surplus words))

end PartRelay
