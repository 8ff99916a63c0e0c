import PartRelay.Bytes.Basic
import PartRelay.Text.Basic

/-!
# Memory

Byte strings are made in a memory, which has room for those up to some length. How long that is
differs from one machine to the next; it is more than what is read in one portion, and less than
what a length can be.
-/

namespace PartRelay

/-- The least number of more than 63 bits. No length is as great. -/
def Memory.lengthLimit : Int := 0x8000000000000000

/-- What is kept beside the bytes of a byte string. -/
def Memory.stringOverhead : Int := 33

/-- The most that is read at a time: a line of 64 kilobytes and a byte more. -/
def Memory.portion : Nat := 0x10001

/-- A memory that has room for byte strings of up to `size` bytes. -/
structure Memory where
  size : Nat
  portion_le : Memory.portion ≤ size
  size_lt : size < Memory.lengthLimit - Memory.stringOverhead

namespace Memory

/-- Why there is no room for a byte string. -/
inductive Error where
  /-- Its length is none: it has more than 63 bits. -/
  | notALength
  /-- With what is kept beside the bytes its length has more than 63 bits. -/
  | tooLong
  /-- It is longer than the memory has room for. -/
  | noRoom
  deriving DecidableEq

def Error.message : Error → Text
  | .notALength => "cannot fit 'int' into an index-sized integer"
  | .tooLong => "byte string is too large"
  | .noRoom => []

/-- What is wrong with asking for so many bytes, where there is no room for them. -/
def Error.ofCount (count : Int) : Error :=
  if count ≥ lengthLimit then .notALength
  else if count ≥ lengthLimit - stringOverhead then .tooLong
  else .noRoom

/-- What is wrong with putting so many bytes together. A sum that is no length is not told apart
from one that there is no room for. -/
def Error.ofSum (count : Int) : Error :=
  if count ≥ lengthLimit - stringOverhead ∧ count < lengthLimit then .tooLong else .noRoom

variable (m : Memory)

/-- Whether there is room for so many bytes. -/
def grants (count : Int) : Bool := count ≤ m.size

/-- So many zeros; a negative number of them is none. -/
def zeros (count : Int) : Except Error Bytes :=
  if m.grants count then .ok (List.replicate count.toNat 0) else .error (.ofCount count)

/-- Two byte strings put together. -/
def append (front back : Bytes) : Except Error Bytes :=
  let whole := front ++ back
  if m.grants whole.length then .ok whole else .error (.ofSum whole.length)

end Memory

end PartRelay
