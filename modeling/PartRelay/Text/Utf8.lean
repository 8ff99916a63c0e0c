import PartRelay.Bytes.Basic
import PartRelay.Text.Basic

/-!
# UTF-8

Writing takes one to four bytes for a code point. Reading goes byte by byte and names the first
sequence that is not well formed, with its place and what is wrong with it.
-/

namespace PartRelay.Utf8

/-! ## Writing -/

def writePoint (c : CodePoint) : Bytes :=
  let n := c.val
  if n < 0x80 then [UInt8.ofNat n]
  else if n < 0x800 then [UInt8.ofNat (0xC0 + n / 0x40), UInt8.ofNat (0x80 + n % 0x40)]
  else if n < 0x10000 then
    [UInt8.ofNat (0xE0 + n / 0x1000), UInt8.ofNat (0x80 + n / 0x40 % 0x40),
     UInt8.ofNat (0x80 + n % 0x40)]
  else
    [UInt8.ofNat (0xF0 + n / 0x40000), UInt8.ofNat (0x80 + n / 0x1000 % 0x40),
     UInt8.ofNat (0x80 + n / 0x40 % 0x40), UInt8.ofNat (0x80 + n % 0x40)]

def write (t : Text) : Bytes := t.flatMap writePoint

/-! ## Reading -/

inductive Fault where
  /-- The byte starts no sequence. -/
  | startByte
  /-- The next byte does not continue the sequence. -/
  | continuationByte
  /-- The bytes end inside a sequence. -/
  | endOfData

def Fault.message : Fault → Text
  | .startByte => "invalid start byte"
  | .continuationByte => "invalid continuation byte"
  | .endOfData => "unexpected end of data"

/-- A sequence of `length` bytes that starts with `first` at `start` and is not well formed. -/
structure ReadError where
  first : UInt8
  start : Nat
  length : Nat
  fault : Fault

def ReadError.message (e : ReadError) : Text :=
  if e.length = 1 then Text.join
    ["'utf-8' codec can't decode byte 0x", Text.ofHex 2 e.first.toNat, " in position ",
     Text.ofNat e.start, ": ", e.fault.message]
  else Text.join
    ["'utf-8' codec can't decode bytes in position ", Text.ofNat e.start, "-",
     Text.ofNat (e.start + e.length - 1), ": ", e.fault.message]

/-- A sequence that is being read. -/
structure Sequence where
  first : UInt8
  /-- How many of its bytes have been read. -/
  taken : Nat
  /-- How many are still to come, less one. -/
  missing : Nat
  /-- Where the next byte has to lie. -/
  low : Nat
  high : Nat
  /-- The number read so far. -/
  value : Nat

/-- What a byte above `0x7F` starts. The second byte is held to a narrower range where the whole
would otherwise be too long a form, a surrogate, or past the last code point. -/
def Sequence.start? (b : UInt8) : Option Sequence :=
  let n := b.toNat
  if n < 0xC2 then none
  else if n < 0xE0 then some ⟨b, 1, 0, 0x80, 0xBF, n - 0xC0⟩
  else if n = 0xE0 then some ⟨b, 1, 1, 0xA0, 0xBF, 0⟩
  else if n = 0xED then some ⟨b, 1, 1, 0x80, 0x9F, 0xD⟩
  else if n < 0xF0 then some ⟨b, 1, 1, 0x80, 0xBF, n - 0xE0⟩
  else if n = 0xF0 then some ⟨b, 1, 2, 0x90, 0xBF, 0⟩
  else if n < 0xF4 then some ⟨b, 1, 2, 0x80, 0xBF, n - 0xF0⟩
  else if n = 0xF4 then some ⟨b, 1, 2, 0x80, 0x8F, 4⟩
  else none

/-- Reads on at `position`, behind `done`, which comes last first. -/
def readFrom : Bytes → (position : Nat) → Option Sequence → (done : Text) → Except ReadError Text
  | [], _, none, done => .ok done.reverse
  | [], position, some s, _ => .error ⟨s.first, position - s.taken, s.taken, .endOfData⟩
  | b :: bs, position, none, done =>
    if b.toNat < 0x80 then readFrom bs (position + 1) none (.ofNat b.toNat :: done)
    else match Sequence.start? b with
      | none => .error ⟨b, position, 1, .startByte⟩
      | some s => readFrom bs (position + 1) (some s) done
  | b :: bs, position, some s, done =>
    if s.low ≤ b.toNat ∧ b.toNat ≤ s.high then
      let value := s.value * 0x40 + (b.toNat - 0x80)
      match s.missing with
      | 0 => readFrom bs (position + 1) none (.ofNat value :: done)
      | missing + 1 =>
        readFrom bs (position + 1) (some ⟨s.first, s.taken + 1, missing, 0x80, 0xBF, value⟩) done
    else .error ⟨s.first, position - s.taken, s.taken, .continuationByte⟩

def read (bs : Bytes) : Except ReadError Text := readFrom bs 0 none []

end PartRelay.Utf8
