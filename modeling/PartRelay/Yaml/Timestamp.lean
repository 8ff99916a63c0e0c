import PartRelay.Yaml.Spot
import PartRelay.Yaml.Value

/-!
# Dates and time stamps in YAML

`2001-12-14` is a date. With a time of day behind it, it is a time stamp, as in
`2001-12-14 21:59:43.10 -5`. The month, the day, the hour and the hours of the offset then need no
leading zero.
-/

namespace PartRelay.Yaml

/-- A number of `least` to `most` digits at the start of a text, and what follows. -/
def number? (least most : Nat) (t : Text) : Option (Nat × Text) :=
  let digits := t.takeWhile CodePoint.isDigit
  if digits.length < least || most < digits.length then none
  else some (digits.foldl (fun n c => n * 10 + (c.val - 0x30)) 0, t.drop digits.length)

/-- What follows a mark at the start of a text. -/
def behind? (mark : CodePoint) : Text → Option Text
  | [] => none
  | c :: t => if c = mark then some t else none

/-- What follows the gap between date and time: a letter, or blanks. -/
def behindDate? : Text → Option Text
  | [] => none
  | c :: t =>
    if c = 'T' || c = 't' then some t
    else if isSpaceOrTab c then some (t.dropWhile isSpaceOrTab)
    else none

/-- The digits behind the seconds as microseconds, what is finer left out. -/
def fraction (t : Text) : Nat × Text :=
  match behind? '.' t with
  | none => (0, t)
  | some t =>
    let digits := t.takeWhile CodePoint.isDigit
    let six := digits.take 6 ++ List.replicate (6 - digits.length) (CodePoint.ofChar '0')
    (six.foldl (fun n c => n * 10 + (c.val - 0x30)) 0, t.drop digits.length)

/-- The minutes of an offset behind its sign. -/
def offsetMinutes? (t : Text) : Option Nat := do
  let (hours, t) ← number? 1 2 t
  if t.isEmpty then return hours * 60
  let (minutes, t) ← number? 2 2 (← behind? ':' t)
  if t.isEmpty then return hours * 60 + minutes
  failure

/-- The offset that a text ends with: nothing, a letter for universal time, or hours and minutes. -/
def offset? (t : Text) : Option (Option Int) :=
  if t.isEmpty then some none
  else match t.dropWhile isSpaceOrTab with
    | [] => none
    | sign :: t =>
      if sign = 'Z' then if t.isEmpty then some (some 0) else none
      else if sign = '+' then (offsetMinutes? t).map fun n => some n
      else if sign = '-' then (offsetMinutes? t).map fun n => some (-n)
      else none

/-- How many code points a date without a time has. -/
def dateLength : Nat := 10

/-- The point in time that a text has the form of. -/
def timestamp? (t : Text) : Option (Except Timestamp.Fault Value) := do
  let (year, rest) ← number? 4 4 t
  let (month, rest) ← number? 1 2 (← behind? '-' rest)
  let (day, rest) ← number? 1 2 (← behind? '-' rest)
  if rest.isEmpty then
    if t.length ≠ dateLength then failure
    return ((Date.create year month day).mapError .date).map .date
  let (hour, rest) ← number? 1 2 (← behindDate? rest)
  let (minute, rest) ← number? 2 2 (← behind? ':' rest)
  let (second, rest) ← number? 2 2 (← behind? ':' rest)
  let (microsecond, rest) := fraction rest
  let offset ← offset? rest
  return (Timestamp.create year month day hour minute second microsecond offset).map .timestamp

end PartRelay.Yaml
