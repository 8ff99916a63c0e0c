import PartRelay.Calendar.Date

/-!
# Time stamps

A date with a time of day to the microsecond and, if it is known, how far the clock is ahead of
universal time.
-/

namespace PartRelay

structure Timestamp where
  date : Date
  hour : Nat
  minute : Nat
  second : Nat
  microsecond : Nat
  /-- How many minutes the clock is ahead of universal time. -/
  offset : Option Int := none
  deriving DecidableEq

namespace Timestamp

/-! ## Offsets -/

def minutesOfDay : Int := 24 * 60

/-- A number of minutes as a duration of whole days and of seconds that are not negative. -/
def duration (minutes : Int) : Text :=
  let days := Int.fdiv minutes minutesOfDay
  let seconds := Int.fmod minutes minutesOfDay * 60
  let fields := (if days = 0 then [] else [Text.join ["days=", Text.ofInt days]]) ++
    (if seconds = 0 then [] else [Text.join ["seconds=", Text.ofInt seconds]])
  Text.join
    ["datetime.timedelta(", if fields.isEmpty then "0" else Text.intercalate ", " fields, ")"]

/-- The zone of a clock. -/
def zone (offset : Int) : Text :=
  if offset = 0 then "datetime.timezone.utc"
  else Text.join ["datetime.timezone(", duration offset, ")"]

/-- An offset as hours and minutes behind a sign. -/
def offsetText (offset : Int) : Text := Text.join
  [if offset < 0 then "-" else "+", Text.padded 2 (offset.natAbs / 60), ":",
   Text.padded 2 (offset.natAbs % 60)]

/-! ## Faults -/

inductive Fault where
  | date (cause : Date.Fault)
  | hour
  | minute
  | second
  /-- An offset of a day or more. -/
  | offset (minutes : Int)

def Fault.message : Fault → Text
  | .date cause => cause.message
  | .hour => "hour must be in 0..23"
  | .minute => "minute must be in 0..59"
  | .second => "second must be in 0..59"
  | .offset minutes => Text.join
      ["offset must be a timedelta strictly between -timedelta(hours=24) and timedelta(hours=24), ",
       "not ", duration minutes, "."]

def checkOffset (offset : Option Int) : Except Fault Unit :=
  match offset with
  | none => .ok ()
  | some minutes =>
    if minutes.natAbs < minutesOfDay.natAbs then .ok () else .error (.offset minutes)

/-- A time stamp, or the first thing that is wrong with it; the offset is looked at first. -/
def create (year month day hour minute second microsecond : Nat) (offset : Option Int) :
    Except Fault Timestamp := do
  checkOffset offset
  let date ← (Date.create year month day).mapError .date
  if 23 < hour then throw .hour
  if 59 < minute then throw .minute
  if 59 < second then throw .second
  return { date, hour, minute, second, microsecond, offset }

/-! ## Order in time -/

/-- The microseconds since the beginning of the calendar, by the clock of the time stamp. -/
def clock (t : Timestamp) : Nat :=
  (((t.date.number * 24 + t.hour) * 60 + t.minute) * 60 + t.second) * 1000000 + t.microsecond

/-- Whether two time stamps are of one moment. Without an offset only those count as one that show
the same; none with an offset is among them. -/
def same (t u : Timestamp) : Bool :=
  match t.offset, u.offset with
  | none, none => t == u
  | some a, some b => t.clock - a * 60000000 == u.clock - b * 60000000
  | _, _ => false

/-! ## Text -/

/-- Date and time with a space between them. -/
def text (t : Timestamp) : Text := Text.join
  [t.date.text, " ", Text.padded 2 t.hour, ":", Text.padded 2 t.minute, ":",
   Text.padded 2 t.second,
   if t.microsecond = 0 then [] else Text.join [".", Text.padded 6 t.microsecond],
   (t.offset.map offsetText).getD []]

/-- What stands behind the minutes in a list of arguments: nothing where all of it is zero. -/
def fine (t : Timestamp) : List Nat :=
  if t.microsecond ≠ 0 then [t.second, t.microsecond]
  else if t.second ≠ 0 then [t.second]
  else []

/-- A time stamp inside another value. -/
def shown (t : Timestamp) : Text := Text.join
  ["datetime.datetime(", Date.listed (t.date.arguments ++ [t.hour, t.minute] ++ t.fine),
   match t.offset with
   | none => []
   | some offset => Text.join [", tzinfo=", zone offset],
   ")"]

end Timestamp

end PartRelay
