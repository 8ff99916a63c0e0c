import PartRelay.Json.Binary64
import PartRelay.Table
import PartRelay.Text.Integer

/-!
# JSON values

Whole numbers and fractions are told apart, objects keep the order of their fields and hold every
key once.
-/

namespace PartRelay

inductive Json where
  | null
  | bool (b : Bool)
  | int (n : Int)
  | float (x : Binary64)
  | string (s : Text)
  | array (items : List Json)
  | object (fields : List (Text × Json))

namespace Json

instance : Inhabited Json := ⟨.null⟩

/-- The field of an object; a value of another kind has none. -/
def field? : Json → Text → Option Json
  | .object fields, key => Table.get? fields key
  | _, _ => none

/-- The field of an object, null where there is none. -/
def fieldOrNull (j : Json) (key : Text) : Json := (j.field? key).getD .null

/-! ## Integers of values -/

/-- The word for the kind of a value in messages. -/
def kindName : Json → Text
  | .null => "NoneType"
  | .bool _ => "bool"
  | .int _ => "int"
  | .float _ => "float"
  | .string _ => "str"
  | .array _ => "list"
  | .object _ => "dict"

/-- Why a value has no integer. -/
inductive IntegerError where
  | text (cause : Integer.ReadError)
  | notANumber
  | infinite
  /-- A value of a kind that has none. -/
  | kind (name : Text)

def IntegerError.message : IntegerError → Text
  | .text cause => cause.message
  | .notANumber => "cannot convert float NaN to integer"
  | .infinite => "cannot convert float infinity to integer"
  | .kind name => Text.join
      ["int() argument must be a string, a bytes-like object or a real number, not '", name, "'"]

/-- The integer of a value: fractions are cut, truth values count as one and zero, text is read. -/
def toInt : Json → Except IntegerError Int
  | .int n => .ok n
  | .bool b => .ok (if b then 1 else 0)
  | .float .nan => .error .notANumber
  | .float (.infinite _) => .error .infinite
  | .float (.finite negative mantissa exponent) =>
    .ok (Binary64.truncate negative mantissa exponent)
  | .string s => (Integer.read s).mapError .text
  | j => .error (.kind j.kindName)

end Json

end PartRelay
