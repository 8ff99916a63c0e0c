import PartRelay.Json.Fields
import PartRelay.Json.Parser
import PartRelay.Json.Printer
import PartRelay.Reassembly.Buffer
import PartRelay.Text.Utf8

/-!
# Buffers in the store

A buffer is stored as a JSON object whose keys are in order at every level, the indices of the parts
as text among them: `"10"` stands before `"2"`.
-/

namespace PartRelay.Reassembly.Buffer

/-! ## Writing -/

/-- Puts a field into its place among fields in order of their keys. -/
def insertField (field : Text × Json) : List (Text × Json) → List (Text × Json)
  | [] => [field]
  | other :: fields =>
    if Text.le field.1 other.1 then field :: other :: fields
    else other :: insertField field fields

/-- Fields in order of their keys. -/
def sortFields (fields : List (Text × Json)) : List (Text × Json) := fields.foldr insertField []

def partsToJson (parts : Table Int Bytes) : Json :=
  .object (sortFields (parts.map fun (index, contents) =>
    (Text.ofInt index, .string (Base64.write contents))))

def toJson (b : Buffer) : Json :=
  .object
    [("created_ms", .int b.createdMs),
     ("key_residue", match b.residue with
       | none => .null
       | some bs => .string (Base64.write bs)),
     ("message_id", .int b.messageId),
     ("message_type", .int b.messageType),
     ("num_parts", b.numParts),
     ("parts", partsToJson b.parts),
     ("relationship_fingerprint", .string (Base64.write b.fingerprint)),
     ("sender", .string (Base64.write b.sender.marshal)),
     ("timestamp_ns", .int b.timestampNs)]

/-- The bytes that are stored, as long as the numbers can be written. -/
def encode (b : Buffer) : Except Integer.WriteError Bytes := b.toJson.render?.map Utf8.write

/-! ## Reading -/

/-- Why a stored value is no buffer. -/
inductive ReadError where
  | utf8 (cause : Utf8.ReadError)
  | json (cause : Json.ReadError)
  | field (cause : Json.FieldError)
  | sender (cause : Sender.Error)
  /-- The index of a part is no integer. -/
  | index (cause : Integer.ReadError)

def ReadError.message : ReadError → Text
  | .utf8 cause => cause.message
  | .json cause => cause.message
  | .field cause => cause.message
  | .sender cause => cause.message
  | .index cause => cause.message

def partsOfFields (done : Table Int Bytes) :
    List (Text × Json) → Except ReadError (Table Int Bytes)
  | [] => .ok done
  | (key, value) :: fields =>
    match Integer.read key with
    | .error e => .error (.index e)
    | .ok index =>
      match value.toBytes with
      | .error e => .error (.field e)
      | .ok contents => partsOfFields (done.set index contents) fields

def partsOfJson : Json → Except ReadError (Table Int Bytes)
  | .object fields => partsOfFields [] fields
  | j => .error (.field (.noMember j.kindName "items"))

/-- The residue of a stored object; null where there is none. -/
def residueOfJson : Json → Except Json.FieldError (Option Bytes)
  | .null => .ok none
  | j => j.toBytes.map some

def ofJson (j : Json) : Except ReadError Buffer :=
  match j with
  | .object _ => do
    let marshaled ← (j.requireBytes "sender").mapError .field
    let sender ← (Sender.unmarshal marshaled).mapError .sender
    let fingerprint ← (j.requireBytes "relationship_fingerprint").mapError .field
    let messageId ← (j.requireInt "message_id").mapError .field
    let createdMs ← (j.requireInt "created_ms").mapError .field
    let messageType ← (j.intOrZero "message_type").mapError .field
    let timestampNs ← (j.intOrZero "timestamp_ns").mapError .field
    let residue ← (residueOfJson (j.fieldOrNull "key_residue")).mapError .field
    let stored ← (j.require "parts").mapError .field
    let parts ← partsOfJson stored
    return { sender, fingerprint, messageId, createdMs, numParts := j.fieldOrNull "num_parts",
             messageType, timestampNs, residue, parts }
  | _ => .error (.field (.noMember j.kindName "get"))

def decode (levels : Nat) (bs : Bytes) : Except ReadError Buffer :=
  match Utf8.read bs with
  | .error e => .error (.utf8 e)
  | .ok t =>
    match Json.readWithin levels t with
    | .error e => .error (.json e)
    | .ok j => ofJson j

end PartRelay.Reassembly.Buffer
