import PartRelay.Command.Arguments
import PartRelay.Command.Outcome
import PartRelay.Config.Network
import PartRelay.Part.Split

/-!
# Splitting a file

Cuts a file into message parts and gives a line for each: the body of the request that submits it.
-/

namespace PartRelay.Command

/-- The body of the request that submits a part. Empty text is no fingerprint. -/
def partBody (sender : Text) (fingerprint : Option Text) (part : Bytes) : Json :=
  let fields : Table Text Json :=
    [("senderId", .string sender), ("payload", .string (Base64.write part))]
  match fingerprint with
  | none | some [] => .object fields
  | some t => .object (fields.set "relationshipFingerprint" (.string t))

/-- The bodies with a line feed behind each. -/
def bodyLines (a : SplitArguments) (parts : List Bytes) : Text :=
  Text.intercalate "\n" (parts.map fun part => (partBody a.sender a.fingerprint part).render) ++
    "\n"

/-- Writes text to a file, or to the output where no file is named. -/
def deliver (d : Directory) (path : Option Text) (t : Text) : Outcome :=
  match path with
  | none | some [] => { directory := d, output := t }
  | some path =>
    match d.write (.ofText path) (Utf8.write t) with
    | .error e => .broken d (.file e)
    | .ok d => { directory := d }

/-- What stands for a number that is not there: no field of a part holds it. -/
def noField : Int := -1

/-- Whether a fault is that of a number that is not there. -/
def lacks (a : SplitArguments) : Part.Error → Bool
  | .messageIdRange => a.messageId.isNone
  | .messageTypeRange => a.messageType.isNone
  | .timestampRange => a.timestampNs.isNone
  | _ => false

/-- Splits a payload. Parts without a time stamp of their own get the time of the machine. -/
def splitPayload (machine : Machine) (d : Directory) (a : SplitArguments) (size : Int)
    (payload : Bytes) : Outcome :=
  let timestampNs := (a.timestampNs.map (·.getD machine.ns)).getD noField
  match Part.split machine.memory payload size (a.messageId.getD noField)
      (a.messageType.getD noField) timestampNs with
  | .error (.part e) =>
    if lacks a e then .broken d .noNumber
    else .failed d ("cannot split payload: " ++ e.message)
  | .error e => .broken d (.part e)
  | .ok parts => deliver d a.output (bodyLines a parts)

/-- Splits a file. -/
def runSplit (machine : Machine) (d : Directory) (a : SplitArguments) : Outcome :=
  match sizeOfParts d a.networkPath with
  | .error e => .halted d id e
  | .ok size =>
    match Sender.parse (some a.sender) with
    | .error e => .failed d e.message
    | .ok _ =>
      match a.input with
      | none => .broken d .noPath
      | some input =>
        match d.read (.ofText input) with
        | .error e => .broken d (.file e)
        | .ok payload => splitPayload machine d a size payload

end PartRelay.Command
