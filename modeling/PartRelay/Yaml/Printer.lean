import PartRelay.Yaml.Scalar

/-!
# Writing YAML

A mapping with a line for each field. A word that cannot be taken for a value of another kind
stands as it is; any other text stands in double quotes, with everything outside of printable ASCII
escaped.
-/

namespace PartRelay.Yaml

/-- How a code point stands between double quotes. -/
def quotedPoint (c : CodePoint) : Text :=
  if c = '"' || c = '\\' then ['\\', c]
  else if c.between 0x20 0x7E then [c]
  else if c.val < 0x100 then "\\x" ++ Text.ofHex 2 c.val
  else if c.val < 0x10000 then "\\u" ++ Text.ofHex 4 c.val
  else "\\U" ++ Text.ofHex 8 c.val

def quote (t : Text) : Text :=
  CodePoint.ofChar '"' :: t.flatMap quotedPoint ++ [CodePoint.ofChar '"']

/-- What a word without quotes consists of. -/
def isWordPoint (c : CodePoint) : Bool :=
  c.isLetter || c.isDigit || c = '.' || c = '_' || c = '-' || c = '/' || c = ':'

/-- Whether a text is a word that is read back as text. A dash or a point at its start and a colon
at its end can be marks of a document. -/
def isWord (t : Text) : Bool :=
  t.all isWordPoint && !t.startsWith "-" && !t.startsWith "." &&
  t.getLast? != some (CodePoint.ofChar ':') &&
  match resolve t with
  | .ok (.text _) => true
  | _ => false

def text (t : Text) : Text := if isWord t then t else quote t

/-- A scalar; lists and mappings are not written. -/
def scalar : Json → Text
  | .null => "null"
  | .bool b => if b then "true" else "false"
  | .int n => Text.ofInt n
  | .float x => x.text
  | .string s => text s
  | .array _ | .object _ => "null"

def renderFields (fields : List (Text × Json)) : Text :=
  fields.flatMap fun field => text field.1 ++ ": " ++ scalar field.2 ++ "\n"

end PartRelay.Yaml
