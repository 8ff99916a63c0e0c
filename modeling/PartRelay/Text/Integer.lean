import PartRelay.Text.Blank
import PartRelay.Text.Digits
import PartRelay.Text.Quoted

/-!
# Integers in text

Reads decimal integers: blanks around, at most one sign, digits with single underscores between
them. Every decimal digit of Unicode counts with its value. A number of more than `digitLimit`
digits is neither read nor written.
-/

namespace PartRelay

namespace CodePoint

/-- The zeros of the decimal digits of Unicode 14.0.0; each is followed by the other nine digits. -/
def zeros : List Nat :=
  [0x30, 0x660, 0x6F0, 0x7C0, 0x966, 0x9E6, 0xA66, 0xAE6, 0xB66, 0xBE6, 0xC66, 0xCE6, 0xD66, 0xDE6,
   0xE50, 0xED0, 0xF20, 0x1040, 0x1090, 0x17E0, 0x1810, 0x1946, 0x19D0, 0x1A80, 0x1A90, 0x1B50,
   0x1BB0, 0x1C40, 0x1C50, 0xA620, 0xA8D0, 0xA900, 0xA9D0, 0xA9F0, 0xAA50, 0xABF0, 0xFF10, 0x104A0,
   0x10D30, 0x11066, 0x110F0, 0x11136, 0x111D0, 0x112F0, 0x11450, 0x114D0, 0x11650, 0x116C0,
   0x11730, 0x118E0, 0x11950, 0x11C50, 0x11D50, 0x11DA0, 0x16A60, 0x16AC0, 0x16B50, 0x1D7CE,
   0x1D7D8, 0x1D7E2, 0x1D7EC, 0x1D7F6, 0x1E140, 0x1E2F0, 0x1E950, 0x1FBF0]

/-- The value of a decimal digit of any script. -/
def digitValue? (c : CodePoint) : Option Nat :=
  (zeros.find? fun first => c.between first (first + 9)).map (c.val - ·)

end CodePoint

namespace Integer

/-- The greatest number of digits that is read or written. -/
def digitLimit : Nat := 4300

/-! ## Reading -/

inductive ReadError where
  /-- The text is no integer. -/
  | malformed (t : Text)
  /-- The integer has more digits than `digitLimit`. -/
  | tooLong (digits : Nat)

/-- A text in a message is cut after this many code points of its quoted form. -/
def shownLength : Nat := 200

def ReadError.message : ReadError → Text
  | .malformed t => "invalid literal for int() with base 10: " ++ t.quoted.take shownLength
  | .tooLong digits => Text.join
      ["Exceeds the limit (", Text.ofNat digitLimit, " digits) for integer string conversion: ",
       "value has ", Text.ofNat digits,
       " digits; use sys.set_int_max_str_digits() to increase the limit"]

/-- What may stand around the digits. Blanks outside ASCII count, those of ASCII are the six narrow
ones. -/
def isMargin (c : CodePoint) : Bool := if c.val < 0x7F then c.isAsciiBlank else c.isBlank

/-- The digits among the digits and underscores at the start of a text, and what follows. A
misplaced underscore gives `none`; `fresh` says that no digit stands just before. `done` holds the
digits that have been read, last first. -/
def digits? : Text → (fresh : Bool) → (done : List Nat) → Option (List Nat × Text)
  | [], fresh, done => if fresh then none else some (done.reverse, [])
  | c :: t, fresh, done =>
    if c = '_' then if fresh then none else digits? t true done
    else match c.digitValue? with
      | some d => digits? t false (d :: done)
      | none => if fresh then none else some (done.reverse, c :: t)

/-- The sign at the start of a numeral and what follows it. -/
def sign : Text → Bool × Text
  | [] => (false, [])
  | c :: t => if c = '-' then (true, t) else if c = '+' then (false, t) else (false, c :: t)

/-- Reads an integer. A number of digits over the limit is reported even where more text follows
the digits. -/
def read (t : Text) : Except ReadError Int :=
  let (negative, body) := sign (t.dropWhile isMargin)
  match digits? body true [] with
  | none => .error (.malformed t)
  | some (digits, rest) =>
    if digits.length > digitLimit then .error (.tooLong digits.length)
    else if rest.all isMargin then
      let value := Digits.value 10 digits
      .ok (if negative then -value else value)
    else .error (.malformed t)

/-! ## Writing -/

/-- The least number of more than `digitLimit` digits. -/
def unwritable : Nat := Nat.pow 10 digitLimit

/-- Whether a number keeps to the limit. Its sign does not count as a digit. -/
def isWritable (n : Int) : Bool := n.natAbs < unwritable

/-- Why there is no text of a number, or of what holds it. -/
inductive WriteError where
  | tooLong
  deriving DecidableEq

def WriteError.message : WriteError → Text
  | .tooLong => Text.join
      ["Exceeds the limit (", Text.ofNat digitLimit, " digits) for integer string conversion; ",
       "use sys.set_int_max_str_digits() to increase the limit"]

end Integer

end PartRelay
