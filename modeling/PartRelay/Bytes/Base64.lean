import PartRelay.Bytes.Basic
import PartRelay.Text.Basic

/-!
# Base64

The standard alphabet with padding. There is one writer and there are two readers: the strict one
takes the text of a request, the lenient one passes over what is not in the alphabet and reads what
the store holds.
-/

namespace PartRelay.Base64

/-! ## The alphabet -/

/-- The digit of a value below 64. -/
def digit (v : Nat) : CodePoint :=
  if v < 26 then .ofNat (0x41 + v)
  else if v < 52 then .ofNat (0x61 + (v - 26))
  else if v < 62 then .ofNat (0x30 + (v - 52))
  else if v = 62 then .ofChar '+'
  else .ofChar '/'

/-- The value of a digit. -/
def value? (c : CodePoint) : Option Nat :=
  if c.between 0x41 0x5A then some (c.val - 0x41)
  else if c.between 0x61 0x7A then some (c.val - 0x61 + 26)
  else if c.isDigit then some (c.val - 0x30 + 52)
  else if c = '+' then some 62
  else if c = '/' then some 63
  else none

/-! ## Writing -/

/-- The digits of three bytes. -/
def quadOfThree (a b c : UInt8) : Text :=
  [digit (a.toNat / 4), digit (a.toNat % 4 * 16 + b.toNat / 16),
   digit (b.toNat % 16 * 4 + c.toNat / 64), digit (c.toNat % 64)]

/-- The digits of two bytes, padded. -/
def quadOfTwo (a b : UInt8) : Text :=
  [digit (a.toNat / 4), digit (a.toNat % 4 * 16 + b.toNat / 16), digit (b.toNat % 16 * 4), '=']

/-- The digits of one byte, padded. -/
def quadOfOne (a : UInt8) : Text :=
  [digit (a.toNat / 4), digit (a.toNat % 4 * 16), '=', '=']

/-- Writes behind `done`, which comes last digit first. -/
def writeAfter (done : Text) : Bytes → Text
  | [] => done.reverse
  | [a] => (quadOfOne a).reverseAux done |>.reverse
  | [a, b] => (quadOfTwo a b).reverseAux done |>.reverse
  | a :: b :: c :: rest => writeAfter ((quadOfThree a b c).reverseAux done) rest

def write (bs : Bytes) : Text := writeAfter [] bs

theorem writeAfter_eq (done : Text) (bs : Bytes) :
    writeAfter done bs = done.reverse ++ write bs := by
  suffices h : ∀ done extra : Text,
      writeAfter (done ++ extra) bs = extra.reverse ++ writeAfter done bs by
    simpa [write] using h [] done
  intro done extra
  fun_induction writeAfter done bs <;> simp_all [writeAfter, List.reverseAux_eq]

@[simp] theorem write_nil : write [] = [] := rfl

@[simp] theorem write_one (a : UInt8) : write [a] = quadOfOne a := rfl

@[simp] theorem write_two (a b : UInt8) : write [a, b] = quadOfTwo a b := rfl

@[simp] theorem write_three (a b c : UInt8) (rest : Bytes) :
    write (a :: b :: c :: rest) = quadOfThree a b c ++ write rest := by
  rw [write, writeAfter, writeAfter_eq]
  simp [List.reverseAux_eq]

/-! ## Reading -/

inductive ReadError where
  /-- A code point outside ASCII. -/
  | notAscii
  /-- Padding before all digits. -/
  | leadingPadding
  /-- Text behind the padding that ends the last quad. -/
  | excessData
  /-- Something that is neither digit nor padding. -/
  | notADigit
  /-- A digit behind padding. -/
  | discontinuousPadding
  /-- One digit too many, `count` in all. -/
  | oneDigitOver (count : Nat)
  /-- A last quad without its padding. -/
  | missingPadding

def ReadError.message : ReadError → Text
  | .notAscii => "string argument should contain only ASCII characters"
  | .leadingPadding => "Leading padding not allowed"
  | .excessData => "Excess data after padding"
  | .notADigit => "Only base64 data is allowed"
  | .discontinuousPadding => "Discontinuous padding not allowed"
  | .oneDigitOver count => Text.join
      ["Invalid base64-encoded string: number of data characters (", Text.ofNat count,
       ") cannot be 1 more than a multiple of 4"]
  | .missingPadding => "Incorrect padding"

/-- The bytes that a started quad holds in full. -/
def bytesOfQuad : List Nat → Bytes
  | [x, y] => [UInt8.ofNat (x * 4 + y / 16)]
  | [x, y, z] => [UInt8.ofNat (x * 4 + y / 16), UInt8.ofNat (y % 16 * 16 + z / 4)]
  | [x, y, z, w] =>
    [UInt8.ofNat (x * 4 + y / 16), UInt8.ofNat (y % 16 * 16 + z / 4), UInt8.ofNat (z % 4 * 64 + w)]
  | _ => []

/-- Reads on. `quad` holds the values of the started quad, `pads` the padding read since its last
digit, `padded` says whether there was any padding, and `done` holds the bytes of the full quads,
last first. Padding counts from the second digit of a quad on and ends the text when it fills the
quad; elsewhere it is passed over. -/
def readFrom (strict : Bool) :
    Text → (quad : List Nat) → (pads : Nat) → (padded : Bool) → (done : Bytes) →
    Except ReadError Bytes
  | [], quad, _, _, done =>
    match quad with
    | [] => .ok done.reverse
    | [_] => .error (.oneDigitOver (done.length / 3 * 4 + 1))
    | _ => .error .missingPadding
  | c :: t, quad, pads, padded, done =>
    if c = '=' then
      if quad.length < 2 then readFrom strict t quad pads true done
      else if quad.length + pads + 1 < 4 then readFrom strict t quad (pads + 1) true done
      else if strict && !t.isEmpty then .error .excessData
      else .ok ((bytesOfQuad quad).reverseAux done).reverse
    else match value? c with
      | none =>
        if strict then .error .notADigit else readFrom strict t quad pads padded done
      | some v =>
        if strict && padded then .error .discontinuousPadding
        else if quad.length < 3 then readFrom strict t (quad ++ [v]) 0 padded done
        else readFrom strict t [] 0 padded ((bytesOfQuad (quad ++ [v])).reverseAux done)

/-- Reads text in which nothing but digits and the padding at its end is allowed. Padding behind a
full quad is passed over, and the bits of a last digit that belong to no byte are not looked at. -/
def readStrict (t : Text) : Except ReadError Bytes :=
  if !t.all CodePoint.isAscii then .error .notAscii
  else if t.head? = some (CodePoint.ofChar '=') then .error .leadingPadding
  else readFrom true t [] 0 false []

/-- Reads text in which everything but digits and padding is passed over. -/
def readLenient (t : Text) : Except ReadError Bytes :=
  if !t.all CodePoint.isAscii then .error .notAscii
  else readFrom false t [] 0 false []

end PartRelay.Base64
