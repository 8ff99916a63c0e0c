import PartRelay.Bytes.Base64

/-!
# Senders

A sender identity is 32 bytes of data and one byte for the kind. `Sender.unmarshal` takes such a
string in, `Sender.text` shows it.
-/

namespace PartRelay

/-! ## Kinds -/

inductive SenderKind where
  | generic
  | gateway
  | node
  | user
  deriving DecidableEq

namespace SenderKind

/-- The byte that stands for the kind. -/
def code : SenderKind → Nat
  | .generic => 0
  | .gateway => 1
  | .node => 2
  | .user => 3

def ofCode? : Nat → Option SenderKind
  | 0 => some .generic
  | 1 => some .gateway
  | 2 => some .node
  | 3 => some .user
  | _ => none

def name : SenderKind → Text
  | .generic => "GENERIC"
  | .gateway => "GATEWAY"
  | .node => "NODE"
  | .user => "USER"

@[simp] theorem ofCode?_code (k : SenderKind) : ofCode? k.code = some k := by
  cases k <;> rfl

theorem ofCode?_isSome {n : Nat} : (ofCode? n).isSome ↔ n ≤ 3 := by
  constructor
  · intro h
    unfold ofCode? at h
    split at h <;> simp_all
  · intro h
    match n, h with
    | 0, _ | 1, _ | 2, _ | 3, _ => rfl

end SenderKind

/-! ## Identities -/

/-- An identity as its bytes. Only `unmarshal` promises that they are well formed. -/
@[ext] structure Sender where
  raw : Bytes
  deriving DecidableEq

namespace Sender

def dataLength : Nat := 32

def length : Nat := dataLength + 1

inductive Error where
  /-- Not `length` bytes, but `actual`. -/
  | badLength (actual : Nat)
  /-- The last byte stands for no kind. -/
  | unknownKind (code : Nat)
  /-- The data are not `dataLength` bytes. -/
  | badDataLength

def Error.message : Error → Text
  | .badLength actual =>
    Text.join ["id must be ", Text.ofNat length, " bytes, got ", Text.ofNat actual]
  | .unknownKind code => "unknown id type " ++ Text.ofNat code
  | .badDataLength => Text.join ["id value must be ", Text.ofNat dataLength, " bytes"]

/-- The byte of the kind, zero where there are no bytes. -/
def kindCode (s : Sender) : Nat := (s.raw.getLast?.getD 0).toNat

def kind? (s : Sender) : Option SenderKind := SenderKind.ofCode? s.kindCode

/-- Takes an identity of the right length and of a known kind. -/
def unmarshal (bs : Bytes) : Except Error Sender :=
  if bs.length ≠ length then .error (.badLength bs.length)
  else if (Sender.mk bs).kind?.isNone then .error (.unknownKind (Sender.mk bs).kindCode)
  else .ok ⟨bs⟩

def marshal (s : Sender) : Bytes := s.raw

/-- What cannot become an identity: data of the wrong length, or a kind that is no byte. -/
inductive CreateError where
  | badData (cause : Error)
  | kindNotAByte

def CreateError.message : CreateError → Text
  | .badData cause => cause.message
  | .kindNotAByte => "bytes must be in range(0, 256)"

/-- An identity from its data and the byte of its kind, which may stand for no kind. -/
def create (data : Bytes) (code : Int) : Except CreateError Sender :=
  if data.length ≠ dataLength then .error (.badData .badDataLength)
  else if code < 0 ∨ 256 ≤ code then .error .kindNotAByte
  else .ok ⟨data ++ [UInt8.ofNat code.toNat]⟩

/-- The identity in base64. -/
def text (s : Sender) : Text := Base64.write s.raw

end Sender

end PartRelay
