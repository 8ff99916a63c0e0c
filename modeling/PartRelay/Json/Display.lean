import PartRelay.Json.Basic

/-!
# Values as text

How a value is shown where text is asked for: a string as it is, any other value by its kind, with
the strings inside lists and mappings in quotes.
-/

namespace PartRelay.Json

mutual

/-- A value inside another one. -/
def displayInner : Json → Text
  | .null => "None"
  | .bool b => if b then "True" else "False"
  | .int n => Text.ofInt n
  | .float x => x.text
  | .string s => s.quoted
  | .array [] => "[]"
  | .array (item :: items) =>
    CodePoint.ofChar '[' :: displayInner item ++ displayItems items ++ [CodePoint.ofChar ']']
  | .object [] => "\x7b\x7d"
  | .object ((key, value) :: fields) =>
    CodePoint.ofChar '{' :: key.quoted ++ ": " ++ displayInner value ++ displayFields fields ++
      [CodePoint.ofChar '}']

/-- The items behind the first one. -/
def displayItems : List Json → Text
  | [] => []
  | item :: items => ", " ++ displayInner item ++ displayItems items

/-- The fields behind the first one. -/
def displayFields : List (Text × Json) → Text
  | [] => []
  | (key, value) :: fields =>
    ", " ++ key.quoted ++ ": " ++ displayInner value ++ displayFields fields

end

def display : Json → Text
  | .string s => s
  | j => displayInner j

end PartRelay.Json
