import PartRelay.Json.Parser
import PartRelay.Yaml.Error
import PartRelay.Yaml.Timestamp

/-!
# Plain scalars

What a YAML 1.1 scalar without quotes stands for: null, a truth value, an integer written in one of
five ways, a fraction, a point in time, or text.
-/

namespace PartRelay.Yaml

/-! ## Digits -/

/-- The value of a text of digits below `base`, underscores left out. -/
def valueIn (base : Nat) (t : Text) : Nat := Digits.value base (t.filterMap CodePoint.hexValue?)

def isDigitOrMark (c : CodePoint) : Bool := c.isDigit || c = '_'

/-- Whether all of a text, which is not empty, is of a class. -/
def allOf (cls : CodePoint → Bool) (t : Text) : Bool := !t.isEmpty && t.all cls

/-! ## Integers -/

/-- The forms of integers without their sign. -/
inductive IntegerForm where
  | binary (digits : Text)
  | octal (digits : Text)
  | decimal (digits : Text)
  | hexadecimal (digits : Text)
  /-- Numbers of base sixty, each written in decimal. -/
  | sexagesimal (places : List Text)

/-- A place behind the first one of a number in base sixty: one or two digits below sixty. -/
def isSixtieth : Text → Bool
  | [a] => a.isDigit
  | [a, b] => a.between 0x30 0x35 && b.isDigit
  | _ => false

def integerForm? (t : Text) : Option IntegerForm :=
  match t with
  | [] => none
  | a :: rest =>
    let body := rest.drop 1
    if rest.head? = some (CodePoint.ofChar 'b') && a = '0' then
      if allOf (fun c => c = '0' || c = '1' || c = '_') body then some (.binary body) else none
    else if rest.head? = some (CodePoint.ofChar 'x') && a = '0' then
      if allOf (fun c => c.hexValue?.isSome || c = '_') body then some (.hexadecimal body) else none
    else if a = '0' then
      if rest.all (fun c => c.between 0x30 0x37 || c = '_') then some (.octal rest) else none
    else if a.isDigit then
      match t.splitOn ':' with
      | first :: places =>
        if !first.all isDigitOrMark then none
        else if places.isEmpty then some (.decimal first)
        else if places.all isSixtieth then some (.sexagesimal (first :: places))
        else none
      | [] => none
    else none

/-- A decimal number, underscores left out. -/
def readDecimal (t : Text) : Except ReadError Int :=
  (Integer.read (t.filter (· != CodePoint.ofChar '_'))).mapError .integer

def IntegerForm.read : IntegerForm → Except ReadError Int
  | .binary digits =>
    if digits.all (fun c => c = '_') then .error (.emptyInteger 2) else .ok (valueIn 2 digits)
  | .octal digits => .ok (valueIn 8 digits)
  | .hexadecimal digits =>
    if digits.all (fun c => c = '_') then .error (.emptyInteger 16) else .ok (valueIn 16 digits)
  | .decimal digits => readDecimal digits
  | .sexagesimal places =>
    (places.mapM readDecimal).map fun values => Digits.value 60 (values.map Int.toNat)

/-! ## Fractions -/

/-- A sign and what follows it. -/
def splitSign (t : Text) : Option Bool × Text :=
  match t with
  | [] => (none, [])
  | c :: rest =>
    if c = '-' then (some true, rest) else if c = '+' then (some false, rest) else (none, t)

/-- An exponent, which needs its sign, or nothing. -/
def isExponent (t : Text) : Bool :=
  match t with
  | [] => true
  | e :: sign :: digits =>
    (e = 'e' || e = 'E') && (sign = '+' || sign = '-') && allOf CodePoint.isDigit digits
  | _ => false

/-- Whether a text without sign is a fraction: digits, a point, digits and an exponent. -/
def isFraction (t : Text) (signed : Bool) : Bool :=
  let whole := t.takeWhile isDigitOrMark
  match t.dropWhile isDigitOrMark with
  | point :: rest =>
    let places := rest.takeWhile isDigitOrMark
    point = '.' && isExponent (rest.dropWhile isDigitOrMark) &&
      (if whole.isEmpty then !signed && places.head?.any CodePoint.isDigit
       else whole.head?.any CodePoint.isDigit)
  | [] => false

/-- The number nearest to a text that `isFraction` takes. -/
def readFraction (negative : Bool) (t : Text) : Binary64 :=
  let (whole, rest) := Digits.span (t.filter (· != CodePoint.ofChar '_'))
  let (places, rest) := Digits.span (rest.drop 1)
  let power := ((Json.readPower rest).map Prod.fst).getD 0
  .ofDecimal negative (Digits.value 10 (whole ++ places)) (power - places.length)

/-- A number in base sixty whose last place is a fraction without exponent. -/
def sexagesimalFraction? (t : Text) : Option (List Text) :=
  match t.splitOn ':' with
  | first :: second :: more =>
    let places := second :: more
    let last := places.getLast?.getD []
    let whole := last.takeWhile CodePoint.isDigit
    match last.dropWhile CodePoint.isDigit with
    | point :: fraction =>
      if first.head?.any CodePoint.isDigit && first.all isDigitOrMark &&
          places.dropLast.all isSixtieth && isSixtieth whole && point = '.' &&
          fraction.all isDigitOrMark then
        some (first :: places)
      else none
    | [] => none
  | _ => none

/-- The number that the value of a place is multiplied with; `below` places are behind it. -/
def placeFactor (below : Nat) : Nat := Nat.pow 60 below

/-- Whether the first of some places still has a factor that is a number of the format. -/
def hasFactor (places : List Text) : Bool :=
  match Binary64.ofScaled false (placeFactor (places.length - 1)) 0 with
  | .finite .. => true
  | _ => false

/-- The sum of the places of a number in base sixty, from the last place on and rounded at each. -/
def sumPlaces : List Text → Binary64
  | [] => .finite false 0 Binary64.minExponent
  | place :: places =>
    let digit := readFraction false (if place.contains (CodePoint.ofChar '.') then place
      else place ++ ".0")
    (sumPlaces places).add (digit.scale (placeFactor places.length))

/-! ## Resolution -/

def trueWords : List Text :=
  ["yes", "Yes", "YES", "true", "True", "TRUE", "on", "On", "ON"]

def falseWords : List Text :=
  ["no", "No", "NO", "false", "False", "FALSE", "off", "Off", "OFF"]

def nullWords : List Text := ["", "~", "null", "Null", "NULL"]

/-- The scalars that stand for no value of their own. -/
def reservedWords : List Text := ["=", "<<"]

def resolve (t : Text) : Except ReadError Value :=
  let (sign, body) := splitSign t
  let negative := sign.getD false
  if nullWords.contains t then .ok .null
  else if trueWords.contains t then .ok (.bool true)
  else if falseWords.contains t then .ok (.bool false)
  else if reservedWords.contains t then .error .malformed
  else match integerForm? body with
    | some n => n.read.map fun value => .int (if negative then -value else value)
    | none =>
      if isFraction body sign.isSome then .ok (.float (readFraction negative body))
      else if ([".inf", ".Inf", ".INF"] : List Text).contains body then
        .ok (.float (.infinite negative))
      else if ([".nan", ".NaN", ".NAN"] : List Text).contains t then .ok (.float .nan)
      else match sexagesimalFraction? body with
        | some places =>
          if hasFactor places then .ok (.float ((sumPlaces places).withSign negative))
          else .error .placeOverflow
        | none =>
          match timestamp? t with
          | some result => result.mapError .timestamp
          | none => .ok (.text t)

end PartRelay.Yaml
