import PartRelay.Json.Basic

/-!
# Reading JSON

A recursive descent over text. Beyond the standard it takes `NaN`, `Infinity` and `-Infinity`, and
of a key that occurs twice the last value, in the place of the first. A fault is reported with its
place in the text. Arrays and objects may stand in one another to a number of levels;
`Json.readWith` gives every text as many as it can have.
-/

namespace PartRelay.Json

/-! ## Faults -/

inductive Fault where
  | byteOrderMark
  | expectedValue
  | expectedKey
  | expectedColon
  | expectedComma
  | unterminatedString
  | controlCharacter
  | badEscape
  | badUnicodeEscape
  | extraData
  deriving DecidableEq

def Fault.message : Fault → Text
  | .byteOrderMark => "Unexpected UTF-8 BOM (decode using utf-8-sig)"
  | .expectedValue => "Expecting value"
  | .expectedKey => "Expecting property name enclosed in double quotes"
  | .expectedColon => "Expecting ':' delimiter"
  | .expectedComma => "Expecting ',' delimiter"
  | .unterminatedString => "Unterminated string starting at"
  | .controlCharacter => "Invalid control character at"
  | .badEscape => "Invalid \\escape"
  | .badUnicodeEscape => "Invalid \\uXXXX escape"
  | .extraData => "Extra data"

/-- What values stand in. -/
inductive Container where
  | array
  | object
  deriving DecidableEq

def Container.name : Container → Text
  | .array => "array"
  | .object => "object"

/-- Why reading stops: a fault, with the text that is left where it stands, a long integer, or an
array or an object below more levels than there may be. -/
inductive Stop where
  | fault (fault : Fault) (left : Text)
  | longInteger (digits : Nat)
  | tooDeep (container : Container)

/-- Why a text is not read. -/
inductive ReadError where
  | malformed (fault : Fault) (line column position : Nat)
  | longInteger (digits : Nat)
  | tooDeep (container : Container)

def ReadError.message : ReadError → Text
  | .malformed fault line column position => Text.join
      [fault.message, ": line ", Text.ofNat line, " column ", Text.ofNat column, " (char ",
       Text.ofNat position, ")"]
  | .longInteger digits => (Integer.ReadError.tooLong digits).message
  | .tooDeep container => Text.join
      ["maximum recursion depth exceeded while decoding a JSON ", container.name,
       " from a unicode string"]

/-- Lines and columns are counted from one, positions from zero. -/
def Stop.inText (t : Text) : Stop → ReadError
  | .longInteger digits => .longInteger digits
  | .tooDeep container => .tooDeep container
  | .fault f left =>
    let position := t.length - left.length
    let before := t.take position
    let lastLine := before.reverse.takeWhile (· != CodePoint.ofChar '\n')
    .malformed f (before.count (CodePoint.ofChar '\n') + 1) (lastLine.length + 1) position

/-! ## Blanks -/

/-- Space, tab, line feed and carriage return. -/
def isBlank (c : CodePoint) : Bool := c = ' ' || c = '\t' || c = '\n' || c = '\r'

def skipBlanks (t : Text) : Text := t.dropWhile isBlank

/-! ## Strings -/

/-- What an escape of one letter stands for. -/
def shortEscape? (c : CodePoint) : Option CodePoint :=
  if c = '"' || c = '\\' || c = '/' then some c
  else if c = 'b' then some '\x08'
  else if c = 'f' then some '\x0c'
  else if c = 'n' then some '\n'
  else if c = 'r' then some '\r'
  else if c = 't' then some '\t'
  else none

/-- The number of four hexadecimal digits. -/
def hexOfFour? (a b c d : CodePoint) : Option Nat :=
  match a.hexValue?, b.hexValue?, c.hexValue?, d.hexValue? with
  | some a, some b, some c, some d => some (((a * 16 + b) * 16 + c) * 16 + d)
  | _, _, _, _ => none

/-- Puts the code unit of an escape behind `done`, which comes last first. A low surrogate that
follows the escape of a high one becomes one code point with it. -/
def pushUnit (unit : Nat) (afterHigh : Bool) (done : Text) : Text :=
  match done with
  | high :: before =>
    if afterHigh && 0xDC00 ≤ unit && unit ≤ 0xDFFF then
      .ofNat (0x10000 + (high.val - 0xD800) * 0x400 + (unit - 0xDC00)) :: before
    else .ofNat unit :: done
  | [] => [.ofNat unit]

/-- Reads a string from behind its opening quote, which stands at the start of `opening`; gives the
string and what follows. `done` holds what has been read, last first, and `afterHigh` says that it
ends with the escape of a high surrogate. -/
def readString (opening : Text) :
    Text → (afterHigh : Bool) → (done : Text) → Except Stop (Text × Text)
  | [], _, _ => .error (.fault .unterminatedString opening)
  | c :: t, afterHigh, done =>
    if c = '"' then .ok (done.reverse, t)
    else if c = '\\' then
      match t with
      | [] => .error (.fault .unterminatedString opening)
      | e :: t' =>
        if e = 'u' then
          match t' with
          | h1 :: h2 :: h3 :: h4 :: t'' =>
            match hexOfFour? h1 h2 h3 h4, t''.isEmpty with
            | some unit, false =>
              readString opening t'' (0xD800 ≤ unit && unit ≤ 0xDBFF) (pushUnit unit afterHigh done)
            | _, _ => .error (.fault .badUnicodeEscape (e :: t'))
          | _ => .error (.fault .badUnicodeEscape (e :: t'))
        else match shortEscape? e with
          | some c' => readString opening t' false (c' :: done)
          | none => .error (.fault .badEscape (c :: t))
    else if c.val < 0x20 then .error (.fault .controlCharacter (c :: t))
    else readString opening t false (c :: done)

/-! ## Numbers -/

/-- The digits of a whole number, which has no leading zero, and what follows. -/
def readWhole (t : Text) : Option (List Nat × Text) :=
  match t with
  | c :: t' => if c = '0' then some ([0], t') else if c.isDigit then some (Digits.span t) else none
  | [] => none

/-- The digits of the fraction behind a whole number, and what follows. -/
def readFraction (t : Text) : Option (List Nat × Text) :=
  match t with
  | c :: t' =>
    if c = '.' then
      match Digits.span t' with
      | ([], _) => none
      | found => some found
    else none
  | [] => none

/-- The power of ten behind a number, and what follows. -/
def readPower (t : Text) : Option (Int × Text) :=
  match t with
  | c :: t' =>
    if c = 'e' || c = 'E' then
      let (negative, body) := Integer.sign t'
      match Digits.span body with
      | ([], _) => none
      | (digits, rest) =>
        let value := Digits.value 10 digits
        some (if negative then -(value : Int) else value, rest)
    else none
  | [] => none

/-- Reads a number, an integer unless there is a fraction or a power of ten. A `limit` bounds the
digits of integers. -/
def readNumber (limit : Option Nat) (t : Text) : Except Stop (Json × Text) :=
  let (negative, body) : Bool × Text := match t with
    | c :: t' => if c = '-' then (true, t') else (false, t)
    | [] => (false, [])
  match readWhole body with
  | none => .error (.fault .expectedValue t)
  | some (digits, rest) =>
    match readFraction rest with
    | some (places, rest) =>
      let (power, rest) := (readPower rest).getD (0, rest)
      let value := Digits.value 10 (digits ++ places)
      .ok (.float (.ofDecimal negative value (power - places.length)), rest)
    | none =>
      match readPower rest with
      | some (power, rest) =>
        .ok (.float (.ofDecimal negative (Digits.value 10 digits) power), rest)
      | none =>
        if limit.any (· < digits.length) then .error (.longInteger digits.length)
        else
          let value := Digits.value 10 digits
          .ok (.int (if negative then -(value : Int) else value), rest)

/-! ## Values -/

/-- The values that are written as words. -/
def words : List (Text × Json) :=
  [("null", .null), ("true", .bool true), ("false", .bool false), ("NaN", .float .nan),
   ("Infinity", .float (.infinite false)), ("-Infinity", .float (.infinite true))]

/-- The word at the start of a text and what follows it. -/
def readWord? (t : Text) : Option (Json × Text) :=
  words.findSome? fun (word, value) => (t.dropPrefix? word).map (value, ·)

mutual

/-- Reads the value at the start of a text, with so many levels of arrays and objects at most.
`fuel` bounds the depth of the calls; twice the length of the text is enough, since every second call
takes a code point at least. -/
def readValue (limit : Option Nat) : (levels fuel : Nat) → Text → Except Stop (Json × Text)
  | _, 0, t => .error (.fault .expectedValue t)
  | levels, fuel + 1, t =>
    match t with
    | [] => .error (.fault .expectedValue t)
    | c :: t' =>
      if c = '"' then
        match readString t t' false [] with
        | .error e => .error e
        | .ok (s, rest) => .ok (.string s, rest)
      else if c = '[' then
        if levels = 0 then .error (.tooDeep .array)
        else match skipBlanks t' with
          | [] => readItems limit (levels - 1) fuel [] []
          | d :: rest =>
            if d = ']' then .ok (.array [], rest)
            else readItems limit (levels - 1) fuel (d :: rest) []
      else if c = '{' then
        if levels = 0 then .error (.tooDeep .object)
        else match skipBlanks t' with
          | [] => readFields limit (levels - 1) fuel [] []
          | d :: rest =>
            if d = '}' then .ok (.object [], rest)
            else readFields limit (levels - 1) fuel (d :: rest) []
      else match readWord? t with
        | some found => .ok found
        | none => readNumber limit t

/-- Reads the items of an array from the start of one on; `done` holds those before, last first. -/
def readItems (limit : Option Nat) :
    (levels fuel : Nat) → Text → (done : List Json) → Except Stop (Json × Text)
  | _, 0, t, _ => .error (.fault .expectedValue t)
  | levels, fuel + 1, t, done =>
    match readValue limit levels fuel t with
    | .error e => .error e
    | .ok (item, rest) =>
      match skipBlanks rest with
      | [] => .error (.fault .expectedComma [])
      | c :: rest' =>
        if c = ']' then .ok (.array (item :: done).reverse, rest')
        else if c = ',' then readItems limit levels fuel (skipBlanks rest') (item :: done)
        else .error (.fault .expectedComma (c :: rest'))

/-- Reads the fields of an object from the start of one on, behind those of `done`. -/
def readFields (limit : Option Nat) :
    (levels fuel : Nat) → Text → (done : Table Text Json) → Except Stop (Json × Text)
  | _, 0, t, _ => .error (.fault .expectedKey t)
  | levels, fuel + 1, t, done =>
    match t with
    | [] => .error (.fault .expectedKey t)
    | q :: t' =>
      if q = '"' then
        match readString t t' false [] with
        | .error e => .error e
        | .ok (key, rest) =>
          match skipBlanks rest with
          | [] => .error (.fault .expectedColon [])
          | c :: rest' =>
            if c = ':' then
              match readValue limit levels fuel (skipBlanks rest') with
              | .error e => .error e
              | .ok (value, rest) =>
                match skipBlanks rest with
                | [] => .error (.fault .expectedComma [])
                | c :: rest' =>
                  if c = '}' then .ok (.object (done.set key value), rest')
                  else if c = ',' then
                    readFields limit levels fuel (skipBlanks rest') (done.set key value)
                  else .error (.fault .expectedComma (c :: rest'))
            else .error (.fault .expectedColon (c :: rest'))
      else .error (.fault .expectedKey t)

end

/-- Reads a whole text of so many levels at most, blanks around the value allowed. -/
def readBounded (limit : Option Nat) (levels : Nat) (t : Text) : Except ReadError Json :=
  if t.head? = some (.ofNat 0xFEFF) then .error (Stop.inText t (.fault .byteOrderMark t))
  else match readValue limit levels (2 * t.length + 2) (skipBlanks t) with
    | .error stop => .error (stop.inText t)
    | .ok (value, rest) =>
      match skipBlanks rest with
      | [] => .ok value
      | left => .error (Stop.inText t (.fault .extraData left))

/-- Reads a whole text of any depth: no text has more levels than code points. -/
def readWith (limit : Option Nat) (t : Text) : Except ReadError Json :=
  readBounded limit t.length t

/-- Reads a whole text whose integers keep to the limit of `Integer.digitLimit`. Request bodies and
configuration files are read so; they are taken to be nested no deeper than they may be. -/
def read (t : Text) : Except ReadError Json := readWith (some Integer.digitLimit) t

/-- How many levels there may be where JSON is read and written: enough for what is stored. -/
structure Levels where
  most : Nat
  two_le : 2 ≤ most
  deriving DecidableEq

/-- Reads such a text of so many levels at most, as what is stored is read. -/
def readWithin (levels : Nat) (t : Text) : Except ReadError Json :=
  readBounded (some Integer.digitLimit) levels t

end PartRelay.Json
