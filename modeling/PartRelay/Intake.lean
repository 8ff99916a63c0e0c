import PartRelay.EventLog
import PartRelay.Fragment
import PartRelay.Reassembly.Reassembler

/-!
# Intake

Answers a fragment with a receipt, once a reassembler has taken the part or refused it, and tells
the event log what happened. The submission may override message type and time stamp of a completed
message; that does not reach the reassembler.
-/

namespace PartRelay.Intake

open Reassembly (Message Refusal Progress)

/-! ## What a reassembler answers -/

/-- Why a part is refused. The intake tells two causes apart and passes on any other. -/
inductive Rejection (ε : Type) where
  /-- The part is malformed. -/
  | malformed (reason : Text)
  /-- The part does not fit to those that have arrived. -/
  | conflict (reason : Text)
  | other (cause : ε)

/-- Whether the message is complete, and the message. -/
structure Answer where
  complete : Bool
  message : Option Message

/-- What this library's reassembler answers. -/
def answerOf (result : Except Refusal Progress) : Except (Rejection Refusal) Answer :=
  match result with
  | .ok .pending => .ok ⟨false, none⟩
  | .ok (.complete message _) => .ok ⟨true, some message⟩
  | .error (.part cause) => .error (.malformed cause.message)
  | .error (.conflict cause) => .error (.conflict cause.message)
  | .error e => .error (.other e)

/-! ## Receipts -/

structure Receipt where
  accepted : Bool
  completed : Bool
  messageType : Int
  byteCount : Int
  payload : Option Bytes := none
  info : Option Text := none
  deriving DecidableEq

/-- A field for what there is. -/
def optionalField (key : Text) (value : Option Json) : List (Text × Json) :=
  match value with
  | none => []
  | some j => [(key, j)]

/-- Empty info counts as none. -/
def Receipt.infoJson (r : Receipt) : Option Json :=
  match r.info with
  | none => none
  | some [] => none
  | some t => some (.string t)

/-- Payload and info are left out where there are none. -/
def Receipt.toJson (r : Receipt) : Json :=
  let always : List (Text × Json) :=
    [("accepted", .bool r.accepted), ("completed", .bool r.completed),
     ("messageType", .int r.messageType), ("bytes", .int r.byteCount)]
  .object (always ++
    optionalField "completedPayload" (r.payload.map fun bs => .string (Base64.write bs)) ++
    optionalField "info" r.infoJson)

/-! ## Handling -/

/-- The message as the submission wants it to be seen. -/
def withOverrides (m : Message) (f : Fragment) : Message :=
  { m with
    messageType := if f.messageType ≠ noMessageType then f.messageType else m.messageType
    timestampNs := f.timestampNs.getD m.timestampNs }

def describe (m : Message) : Text := Text.join
  ["assembled ", Text.ofNat m.payload.length, " bytes from sender ", m.sender.text]

def rejected (f : Fragment) (reason : Text) : Event :=
  { name := "part_rejected"
    fields := [("sender", .string f.sender.text), ("reason", .string reason)] }

def failed (f : Fragment) (reason : Text) : Event :=
  { name := "reassembly_failed"
    fields := [("sender", .string f.sender.text), ("reason", .string reason)] }

def accepted (f : Fragment) (complete : Bool) : Event :=
  { name := "part_accepted"
    fields := [("sender", .string f.sender.text), ("bytes", .int f.payload.length),
      ("completed", .bool complete)] }

def completed (f : Fragment) (m : Message) : Event :=
  { name := "message_completed"
    fields := [("sender", .string f.sender.text), ("message_id", .int m.messageId),
      ("message_type", .int m.messageType), ("timestamp_ns", .int m.timestampNs),
      ("payload_bytes", .int m.payload.length)] }

/-- The receipt for a fragment whose part the reassembler has answered, and the events to log. -/
def respond {ε : Type} (f : Fragment) (answer : Except (Rejection ε) Answer) :
    Except (Rejection ε) Receipt × List Event :=
  match answer with
  | .error (.malformed reason) => (.error (.malformed reason), [rejected f reason])
  | .error (.conflict reason) => (.error (.conflict reason), [failed f reason])
  | .error (.other cause) => (.error (.other cause), [])
  | .ok ⟨false, _⟩ =>
    (.ok
      { accepted := true
        completed := false
        messageType := f.messageType
        byteCount := f.payload.length },
     [accepted f false])
  | .ok ⟨true, none⟩ =>
    (.error (.conflict "reassembler reported completion without a message"),
     [accepted f true, failed f "no message"])
  | .ok ⟨true, some message⟩ =>
    let m := withOverrides message f
    (.ok
      { accepted := true
        completed := true
        messageType := m.messageType
        byteCount := f.payload.length
        payload := some m.payload
        info := some (describe m) },
     [accepted f true, completed f m])

/-- Why there is no receipt. -/
inductive Failure (ε : Type) where
  | rejected (cause : Rejection ε)
  /-- An event cannot be logged. -/
  | unlogged (cause : Json.WriteError)

/-- The receipt, and the log after its events. An event that cannot be logged goes before a
rejection. -/
def conclude {ε : Type} (log : Option EventLog) (now : Int) (f : Fragment)
    (answer : Except (Rejection ε) Answer) : Except (Failure ε) Receipt × Option EventLog :=
  let (receipt, events) := respond f answer
  match log with
  | none => (receipt.mapError .rejected, none)
  | some log =>
    match log.appendAll now events with
    | (.error e, log) => (.error (.unlogged e), some log)
    | (.ok (), log) => (receipt.mapError .rejected, some log)

/-- The part that a fragment brings. -/
def deliveryOf (f : Fragment) : Reassembly.Delivery :=
  { sender := f.sender, contents := f.payload, fingerprint := f.fingerprint }

/-- A reassembler's state with an event log, if there is one. -/
structure State where
  buffers : Reassembly.State := {}
  log : Option EventLog := none

/-- Takes a fragment in at time `now`. -/
def handle (r : Reassembly.Reassembler) (now : Int) (s : State) (f : Fragment) :
    Except (Failure Refusal) Receipt × State :=
  let (result, buffers) := r.handle now s.buffers (deliveryOf f)
  let (receipt, log) := conclude s.log now f (answerOf result)
  (receipt, { buffers, log })

end PartRelay.Intake
