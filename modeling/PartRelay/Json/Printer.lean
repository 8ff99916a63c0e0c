import PartRelay.Json.Basic

/-!
# Writing JSON

Compact text in ASCII: `", "` between items and `": "` behind keys, everything outside of printable
ASCII escaped. `Json.render?` refuses values with integers that are too long to be written,
`Json.renderWithin?` also those that are nested too deep.
-/

namespace PartRelay.Json

/-! ## Strings -/

/-- The escape of a UTF-16 unit. -/
def unitEscape (unit : Nat) : Text := "\\u" ++ Text.ofHex 4 unit

/-- How a code point stands in a string. Above `U+FFFF` it is written as its two surrogates. -/
def renderPoint (c : CodePoint) : Text :=
  if c = '"' then "\\\""
  else if c = '\\' then "\\\\"
  else if c = '\n' then "\\n"
  else if c = '\r' then "\\r"
  else if c = '\t' then "\\t"
  else if c = '\x0c' then "\\f"
  else if c = '\x08' then "\\b"
  else if c.between 0x20 0x7E then [c]
  else if c.val < 0x10000 then unitEscape c.val
  else unitEscape (0xD800 + (c.val - 0x10000) / 0x400) ++
    unitEscape (0xDC00 + (c.val - 0x10000) % 0x400)

def renderString (s : Text) : Text :=
  CodePoint.ofChar '"' :: s.flatMap renderPoint ++ [CodePoint.ofChar '"']

def renderFloat : Binary64 → Text
  | .nan => "NaN"
  | .infinite negative => if negative then "-Infinity" else "Infinity"
  | x => x.text

/-! ## Values -/

mutual

def render : Json → Text
  | .null => "null"
  | .bool b => if b then "true" else "false"
  | .int n => Text.ofInt n
  | .float x => renderFloat x
  | .string s => renderString s
  | .array [] => "[]"
  | .array (item :: items) =>
    CodePoint.ofChar '[' :: render item ++ renderItems items ++ [CodePoint.ofChar ']']
  | .object [] => "\x7b\x7d"
  | .object ((key, value) :: fields) =>
    CodePoint.ofChar '{' :: renderString key ++ ": " ++ render value ++ renderFields fields ++
      [CodePoint.ofChar '}']

/-- The items behind the first one. -/
def renderItems : List Json → Text
  | [] => []
  | item :: items => ", " ++ render item ++ renderItems items

/-- The fields behind the first one. -/
def renderFields : List (Text × Json) → Text
  | [] => []
  | (key, value) :: fields =>
    ", " ++ renderString key ++ ": " ++ render value ++ renderFields fields

end

/-! ## The limit of digits -/

mutual

/-- Whether all integers of a value keep to the limit of digits. -/
def isWritable : Json → Bool
  | .int n => Integer.isWritable n
  | .array items => areWritable items
  | .object fields => fieldsWritable fields
  | _ => true

def areWritable : List Json → Bool
  | [] => true
  | item :: items => isWritable item && areWritable items

def fieldsWritable : List (Text × Json) → Bool
  | [] => true
  | (_, value) :: fields => isWritable value && fieldsWritable fields

end

/-- The text of a value of a few levels, as long as its integers can be written. -/
def render? (j : Json) : Except Integer.WriteError Text :=
  if j.isWritable then .ok j.render else .error .tooLong

/-! ## The limit of levels -/

/-- Why a value of any depth cannot be written. -/
inductive WriteError where
  | number (cause : Integer.WriteError)
  /-- An array or an object stands below more levels than there may be. -/
  | tooDeep

def WriteError.message : WriteError → Text
  | .number cause => cause.message
  | .tooDeep => "maximum recursion depth exceeded while encoding a JSON object"

mutual

/-- What is met first that keeps a value from being written, where there may be so many levels of
arrays and objects. -/
def fault? : (levels : Nat) → Json → Option WriteError
  | _, .int n => if Integer.isWritable n then none else some (.number .tooLong)
  | levels, .array items =>
    match levels with
    | 0 => some .tooDeep
    | levels + 1 => itemsFault? levels items
  | levels, .object fields =>
    match levels with
    | 0 => some .tooDeep
    | levels + 1 => fieldsFault? levels fields
  | _, _ => none

def itemsFault? : (levels : Nat) → List Json → Option WriteError
  | _, [] => none
  | levels, item :: items => (fault? levels item).or (itemsFault? levels items)

def fieldsFault? : (levels : Nat) → List (Text × Json) → Option WriteError
  | _, [] => none
  | levels, (_, value) :: fields => (fault? levels value).or (fieldsFault? levels fields)

end

/-- The text of a value, as long as its integers can be written and it has no more levels than there
may be. -/
def renderWithin? (levels : Nat) (j : Json) : Except WriteError Text :=
  match j.fault? levels with
  | some e => .error e
  | none => .ok j.render

/-! ## Lines -/

/-- An object with a line for each field, set in by two blanks. -/
def renderLines (fields : List (Text × Json)) : Text :=
  let line (field : Text × Json) : Text :=
    "  " ++ renderString field.1 ++ ": " ++ render field.2
  "\x7b\n" ++ Text.intercalate ",\n" (fields.map line) ++ "\n\x7d"

end PartRelay.Json
