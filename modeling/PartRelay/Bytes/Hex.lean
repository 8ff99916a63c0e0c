import PartRelay.Bytes.Basic
import PartRelay.Text.Basic

/-!
# Hexadecimal text

Two digits a byte, the high half first. Written in lower case, read in either case.
-/

namespace PartRelay.Hex

def writeByte (b : UInt8) : Text := Text.ofHex 2 b.toNat

def write (bs : Bytes) : Text := bs.flatMap writeByte

inductive ReadError where
  /-- A code point outside ASCII. -/
  | notAscii
  /-- A digit without its pair. -/
  | oddLength
  /-- Something else than a digit. -/
  | notADigit

def ReadError.message : ReadError → Text
  | .notAscii => "string argument should contain only ASCII characters"
  | .oddLength => "Odd-length string"
  | .notADigit => "Non-hexadecimal digit found"

/-- The bytes of the pairs of digits, behind those of `done`, which come last first. -/
def readPairs? : Text → (done : Bytes) → Option Bytes
  | [], done => some done.reverse
  | [_], _ => none
  | high :: low :: t, done =>
    match high.hexValue?, low.hexValue? with
    | some h, some l => readPairs? t (UInt8.ofNat (h * 16 + l) :: done)
    | _, _ => none

/-- Reads pairs of digits. Of several faults a foreign character is named first, then an odd
length. -/
def read (t : Text) : Except ReadError Bytes :=
  if !t.all CodePoint.isAscii then .error .notAscii
  else if t.length % 2 = 1 then .error .oddLength
  else match readPairs? t [] with
    | some bs => .ok bs
    | none => .error .notADigit

end PartRelay.Hex
