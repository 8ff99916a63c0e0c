import PartRelay.Bytes.Base64
import PartRelay.Json.Basic

/-!
# Fields of stored values

What the store holds is read back without a schema: a field is looked up, and then taken for an
integer or for base64. Each step can fail in its own way.
-/

namespace PartRelay.Json

inductive FieldError where
  /-- The object has no such field. -/
  | missing (key : Text)
  /-- The value is no object; its kind and how that is said. -/
  | notAnObject (value : Json)
  /-- The value is no object, which only shows when its `member` is asked for. -/
  | noMember (kind member : Text)
  | integer (cause : IntegerError)
  | base64 (cause : Base64.ReadError)
  /-- A value of this kind where base64 text belongs. -/
  | notText (kind : Text)

def FieldError.message : FieldError → Text
  | .missing key => key.quoted
  | .notAnObject (.array _) => "list indices must be integers or slices, not str"
  | .notAnObject (.string _) => "string indices must be integers, not 'str'"
  | .notAnObject value => Text.join ["'", value.kindName, "' object is not subscriptable"]
  | .noMember kind member => Text.join ["'", kind, "' object has no attribute '", member, "'"]
  | .integer cause => cause.message
  | .base64 cause => cause.message
  | .notText kind => Text.join
      ["argument should be a bytes-like object or ASCII string, not '", kind, "'"]

/-- The field of an object, which has to be there. -/
def require (j : Json) (key : Text) : Except FieldError Json :=
  match j with
  | .object fields =>
    match Table.get? fields key with
    | some value => .ok value
    | none => .error (.missing key)
  | value => .error (.notAnObject value)

/-- The integer of a field. -/
def requireInt (j : Json) (key : Text) : Except FieldError Int :=
  match j.require key with
  | .error e => .error e
  | .ok value => value.toInt.mapError .integer

/-- The integer of a field, zero where the field is not there. -/
def intOrZero (j : Json) (key : Text) : Except FieldError Int :=
  ((j.field? key).getD (.int 0)).toInt.mapError .integer

/-- The bytes of base64 text. -/
def toBytes : Json → Except FieldError Bytes
  | .string s => (Base64.readLenient s).mapError .base64
  | j => .error (.notText j.kindName)

/-- The bytes of a field. -/
def requireBytes (j : Json) (key : Text) : Except FieldError Bytes :=
  match j.require key with
  | .error e => .error e
  | .ok value => value.toBytes

end PartRelay.Json
