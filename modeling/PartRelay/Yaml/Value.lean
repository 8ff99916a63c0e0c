import PartRelay.Calendar.Timestamp
import PartRelay.Json.Basic
import PartRelay.Text.Quoted

/-!
# Values

What a document stands for. A mapping has a key only once: keys are one where their values are, so
that a whole number is the same key as a fraction or a truth value that is equal to it.
-/

namespace PartRelay.Yaml

inductive Value where
  | null
  | bool (b : Bool)
  | int (n : Int)
  | float (x : Binary64)
  | text (t : Text)
  | date (d : Date)
  | timestamp (t : Timestamp)
  | list (items : List Value)
  | mapping (fields : List (Value × Value))

namespace Value

/-! ## Keys -/

/-- The whole number that a value is equal to. -/
def whole? : Value → Option Int
  | .bool b => some (if b then 1 else 0)
  | .int n => some n
  | .float x => x.whole?
  | _ => none

/-- Whether two values are the same key. Lists and mappings are no keys. -/
def sameKey : Value → Value → Bool
  | .null, .null => true
  | .text s, .text t => s == t
  | .date d, .date e => d == e
  | .timestamp t, .timestamp u => t.same u
  | v, w =>
    match v.whole?, w.whole?, v, w with
    | some m, some n, _, _ => m == n
    | none, none, .float x, .float y => x == y
    | _, _, _, _ => false

/-- A mapping with a value for a key: a key that is there keeps its place and its first form. -/
def put : List (Value × Value) → Value → Value → List (Value × Value)
  | [], key, value => [(key, value)]
  | (k, v) :: fields, key, value =>
    if k.sameKey key then (k, value) :: fields else (k, v) :: put fields key value

/-- The mapping of fields that can name a key twice. -/
def ofFields (fields : List (Value × Value)) : Value :=
  .mapping (fields.foldl (fun done field => put done field.1 field.2) [])

/-- The fields whose keys are texts. -/
def textFields (fields : List (Value × Value)) : Table Text Value :=
  fields.filterMap fun (key, value) =>
    match key with
    | .text t => some (t, value)
    | _ => none

/-! ## Truth and numbers -/

/-- Whether a value counts as nothing: null, false, zero, and what is empty. -/
def isNothing : Value → Bool
  | .null => true
  | .bool b => !b
  | .int n => n == 0
  | .float x => x.isInt 0
  | .text t => t.isEmpty
  | .date _ | .timestamp _ => false
  | .list items => items.isEmpty
  | .mapping fields => fields.isEmpty

/-- The word for the kind of a value in messages. -/
def kindName : Value → Text
  | .null => "NoneType"
  | .bool _ => "bool"
  | .int _ => "int"
  | .float _ => "float"
  | .text _ => "str"
  | .date _ => "datetime.date"
  | .timestamp _ => "datetime.datetime"
  | .list _ => "list"
  | .mapping _ => "dict"

/-- The integer of a value, as for the values of JSON. -/
def toInt : Value → Except Json.IntegerError Int
  | .bool b => Json.toInt (.bool b)
  | .int n => .ok n
  | .float x => Json.toInt (.float x)
  | .text t => Json.toInt (.string t)
  | v => .error (.kind v.kindName)

/-! ## Text -/

mutual

/-- Whether all integers in a value keep to the limit of what is written. -/
def isWritable : Value → Bool
  | .int n => Integer.isWritable n
  | .list items => itemsWritable items
  | .mapping fields => fieldsWritable fields
  | _ => true

def itemsWritable : List Value → Bool
  | [] => true
  | item :: items => item.isWritable && itemsWritable items

def fieldsWritable : List (Value × Value) → Bool
  | [] => true
  | (key, value) :: fields => key.isWritable && value.isWritable && fieldsWritable fields

end

mutual

/-- A value inside another one. -/
def shown : Value → Text
  | .null => "None"
  | .bool b => if b then "True" else "False"
  | .int n => Text.ofInt n
  | .float x => x.text
  | .text t => t.quoted
  | .date d => d.shown
  | .timestamp t => t.shown
  | .list items =>
    CodePoint.ofChar '[' :: Text.intercalate ", " (shownItems items) ++ [CodePoint.ofChar ']']
  | .mapping fields =>
    CodePoint.ofChar '{' :: Text.intercalate ", " (shownFields fields) ++ [CodePoint.ofChar '}']

def shownItems : List Value → List Text
  | [] => []
  | item :: items => item.shown :: shownItems items

def shownFields : List (Value × Value) → List Text
  | [] => []
  | (key, value) :: fields => Text.join [key.shown, ": ", value.shown] :: shownFields fields

end

/-- A value as text: texts and points in time as they are, anything else as inside of others. -/
def display : Value → Text
  | .text t => t
  | .date d => d.text
  | .timestamp t => t.text
  | v => v.shown

end Value

end PartRelay.Yaml
