import PartRelay.Json.Parser
import PartRelay.Sender
import PartRelay.Text.Case
import PartRelay.Text.Utf8

/-!
# Fragments

A fragment is one message part as a client submits it: a `POST` whose body is a JSON object with the
sender, the part and, if wanted, a fingerprint, a message type and a time stamp. Other fields are
not looked at.
-/

namespace PartRelay

/-- The message type of a submission that names none. -/
def defaultMessageType : Int := 2

/-- The message type that leaves the one of the first part in place. -/
def noMessageType : Int := 0

structure Fragment where
  sender : Sender
  payload : Bytes
  fingerprint : Option Bytes := none
  messageType : Int := defaultMessageType
  timestampNs : Option Int := none
  deriving DecidableEq

/-! ## Senders in text -/

/-- Base64 that is not well formed. -/
def base64Message (cause : Base64.ReadError) : Text := "illegal base64 data: " ++ cause.message

/-- Why a text names no sender. -/
inductive SenderTextError where
  | required
  | base64 (cause : Base64.ReadError)
  | sender (cause : Sender.Error)

def SenderTextError.message : SenderTextError → Text
  | .required => "invalid senderId: sender ID required"
  | .base64 cause => "invalid senderId: " ++ base64Message cause
  | .sender cause => "invalid senderId: " ++ cause.message

/-- The sender that a text names, if there is a text. -/
def Sender.parse (t : Option Text) : Except SenderTextError Sender :=
  match t with
  | none => .error .required
  | some [] => .error .required
  | some t =>
    match Base64.readStrict t with
    | .error e => .error (.base64 e)
    | .ok bs => (Sender.unmarshal bs).mapError .sender

/-! ## Requests -/

namespace Fragment

/-- Why a request gives no fragment. -/
inductive RequestError where
  /-- The method is not `POST`. -/
  | method
  | utf8 (cause : Utf8.ReadError)
  | json (cause : Json.ReadError)
  | notAnObject
  | notText (field : Text)
  | notAnInteger (field : Text)
  | range (field : Text) (low high : Int)
  | sender (cause : SenderTextError)
  | payloadRequired
  | payload (cause : Base64.ReadError)
  | fingerprint (cause : Base64.ReadError)

def RequestError.message : RequestError → Text
  | .method => "only POST allowed"
  | .utf8 cause => "invalid JSON: " ++ cause.message
  | .json cause => "invalid JSON: " ++ cause.message
  | .notAnObject => "invalid JSON: body must be a JSON object"
  | .notText field => Text.join ["invalid JSON: field ", field, " must be a string"]
  | .notAnInteger field => Text.join ["invalid JSON: field ", field, " must be an integer"]
  | .range field low high => Text.join
      ["invalid JSON: field ", field, " out of range ", Text.ofInt low, "..", Text.ofInt high]
  | .sender cause => cause.message
  | .payloadRequired => "invalid payload: payload required"
  | .payload cause => "invalid payload: " ++ base64Message cause
  | .fingerprint cause => "invalid relationshipFingerprint: " ++ base64Message cause

/-- The HTTP status that answers the request. -/
def RequestError.status : RequestError → Nat
  | .method => 405
  | _ => 400

/-- A field that is text, or not there, or null. -/
def textField (j : Json) (key : Text) : Except RequestError (Option Text) :=
  match j.fieldOrNull key with
  | .null => .ok none
  | .string s => .ok (some s)
  | _ => .error (.notText key)

/-- A field that is a whole number in a range, or not there, or null. -/
def intField (j : Json) (key : Text) (low high : Int) : Except RequestError (Option Int) :=
  match j.fieldOrNull key with
  | .null => .ok none
  | .int n => if low ≤ n ∧ n ≤ high then .ok (some n) else .error (.range key low high)
  | _ => .error (.notAnInteger key)

/-- The payload is required; it may be empty. -/
def payloadOf (t : Option Text) : Except RequestError Bytes :=
  match t with
  | none => .error .payloadRequired
  | some t => (Base64.readStrict t).mapError .payload

/-- Empty text is no fingerprint. -/
def fingerprintOf (t : Option Text) : Except RequestError (Option Bytes) :=
  match t with
  | none => .ok none
  | some [] => .ok none
  | some t => ((Base64.readStrict t).map some).mapError .fingerprint

/-- The fragment in the object of a request. -/
def ofObject (j : Json) : Except RequestError Fragment := do
  let sender ← (Sender.parse (← textField j "senderId")).mapError .sender
  let payload ← payloadOf (← textField j "payload")
  let fingerprint ← fingerprintOf (← textField j "relationshipFingerprint")
  let messageType ← intField j "messageType" 0 0xFFFFFFFF
  let timestampNs ← intField j "timestampNs" (-0x8000000000000000) 0x7FFFFFFFFFFFFFFF
  return { sender, payload, fingerprint, timestampNs
           messageType := messageType.getD defaultMessageType }

/-- The fragment in the body of a request. -/
def ofBody (body : Bytes) : Except RequestError Fragment :=
  match Utf8.read body with
  | .error e => .error (.utf8 e)
  | .ok t =>
    match Json.read t with
    | .error e => .error (.json e)
    | .ok (.object fields) => ofObject (.object fields)
    | .ok _ => .error .notAnObject

/-- The fragment in a request; the method is compared in capitals. -/
def ofRequest (method : Text) (body : Bytes) : Except RequestError Fragment :=
  if method.upper ≠ ("POST" : Text) then .error .method else ofBody body

end Fragment

end PartRelay
