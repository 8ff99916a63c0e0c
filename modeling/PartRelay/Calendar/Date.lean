import PartRelay.Text.Basic

/-!
# Dates

Days of the Gregorian calendar in the years 1 to 9999, counted from the first one, and their text.
-/

namespace PartRelay

/-- Decimal digits with zeros before them up to a width. -/
def Text.padded (width n : Nat) : Text :=
  let digits := Text.ofNat n
  List.replicate (width - digits.length) (CodePoint.ofChar '0') ++ digits

structure Date where
  year : Nat
  month : Nat
  day : Nat
  deriving DecidableEq

namespace Date

/-! ## The calendar -/

def isLeapYear (year : Nat) : Bool := year % 4 == 0 && (year % 100 != 0 || year % 400 == 0)

def daysIn (year month : Nat) : Nat :=
  if month = 2 then if isLeapYear year then 29 else 28
  else if month = 4 ∨ month = 6 ∨ month = 9 ∨ month = 11 then 30
  else 31

def maxYear : Nat := 9999

inductive Fault where
  | year (n : Nat)
  | month
  | day

def Fault.message : Fault → Text
  | .year n => Text.join ["year ", Text.ofNat n, " is out of range"]
  | .month => "month must be in 1..12"
  | .day => "day is out of range for month"

/-- A date of the calendar, or the first thing that is wrong with it. -/
def create (year month day : Nat) : Except Fault Date :=
  if year < 1 ∨ maxYear < year then .error (.year year)
  else if month < 1 ∨ 12 < month then .error .month
  else if day < 1 ∨ daysIn year month < day then .error .day
  else .ok { year, month, day }

/-! ## Counting days -/

/-- The days before a year, from the year 1 on. -/
def daysBefore (year : Nat) : Nat :=
  let years := year - 1
  365 * years + years / 4 - years / 100 + years / 400

/-- The number of a date, one for the first day of the year 1. -/
def number (d : Date) : Nat :=
  let daysOf (days n : Nat) : Nat := days + daysIn d.year (n + 1)
  (List.range (d.month - 1)).foldl daysOf (daysBefore d.year) + d.day

/-! ## Text -/

/-- Year, month and day with dashes between them. -/
def text (d : Date) : Text := Text.join
  [Text.padded 4 d.year, "-", Text.padded 2 d.month, "-", Text.padded 2 d.day]

/-- Year, month and day as they stand in a list of arguments. -/
def arguments (d : Date) : List Nat := [d.year, d.month, d.day]

/-- Numbers with a comma between each two. -/
def listed (numbers : List Nat) : Text := Text.intercalate ", " (numbers.map Text.ofNat)

/-- A date inside another value. -/
def shown (d : Date) : Text := Text.join ["datetime.date(", listed d.arguments, ")"]

end Date

end PartRelay
