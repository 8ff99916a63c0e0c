import PartRelay.Part.Basic

/-!
# Parts as bytes

`Part.encode` lays a part out at a given size, `Part.parse` reads any byte string back. Padding and
version byte are written as zeros and not looked at when read.
-/

namespace PartRelay.Part

/-! ## Writing -/

/-- Whether a number is one of so many bits, without a sign. -/
def fitsBits (bits : Nat) (n : Int) : Bool := 0 ≤ n && n.toNat < Nat.pow 2 bits

/-- Message id, index and length. -/
def encodeHeader (messageId index length : Int) : Except HeaderError Bytes :=
  if !fitsBits 64 messageId then .error .notAWord
  else if !fitsBits 32 messageId then .error .messageId
  else if !fitsBits 16 length then .error .length
  else .ok (Bytes.ofNat 4 messageId.toNat ++ Bytes.ofNat 1 index.toNat ++
    Bytes.ofNat 2 length.toNat)

/-- Header, contents, zeros up to the capacity, and the version. -/
def assemble (memory : Memory) (header contents : Bytes) (capacity : Int) :
    Except WriteError Bytes :=
  match memory.zeros (capacity - contents.length) with
  | .error e => .error (.memory e)
  | .ok zeros => ([contents, zeros, [version]].foldlM memory.append header).mapError .memory

def encodeContinuation (memory : Memory) (p : Continuation) (size : Int) :
    Except WriteError Bytes :=
  if p.contents.length > capacity size then
    .error (.ofError (.contentsOver p.contents.length (capacity size)))
  else if p.index < 1 ∨ 255 < p.index then .error (.part .indexRange)
  else match encodeHeader p.messageId p.index p.contents.length with
    | .error e => .error (.header e)
    | .ok header => assemble memory header p.contents (capacity size)

def encodeFirst (memory : Memory) (p : FirstPart) (size : Int) : Except WriteError Bytes :=
  if p.contents.length > firstCapacity size then
    .error (.ofError (.firstContentsOver p.contents.length (firstCapacity size)))
  else if p.numParts < 1 ∨ maxParts < p.numParts then .error (.part .numPartsRange)
  else if !fitsBits 32 p.messageType then .error (.part .messageTypeRange)
  else if !fitsBits 64 p.timestampNs then .error (.part .timestampRange)
  else match encodeHeader p.messageId 0 p.contents.length with
    | .error e => .error (.header e)
    | .ok header =>
      let details := Bytes.ofNat 1 p.numParts.toNat ++ Bytes.ofNat 4 p.messageType.toNat ++
        Bytes.ofNat 8 p.timestampNs.toNat
      assemble memory (header ++ details) p.contents (firstCapacity size)

/-- Lays a part out in `size` bytes. -/
def encode (memory : Memory) (part : Part) (size : Int) : Except WriteError Bytes :=
  match part with
  | .first p => encodeFirst memory p size
  | .continuation p => encodeContinuation memory p size

/-! ## Reading -/

/-- Whether the bytes are those of a first part. -/
def isFirst (raw : Bytes) : Except Error Bool :=
  if raw.length < headerLength then .error .tooShort
  else .ok (raw.field 4 1 == 0)

def parseFirst (raw : Bytes) : Except Error FirstPart :=
  if raw.length < firstHeaderLength then .error .firstTooShort
  else if raw.field 7 1 = 0 then .error .noParts
  else if raw.field 5 2 > raw.length - firstHeaderLength then
    .error (.firstLengthOver (raw.field 5 2) (raw.length - firstHeaderLength))
  else .ok
    { messageId := raw.field 0 4
      numParts := raw.field 7 1
      messageType := raw.field 8 4
      timestampNs := raw.field 12 8
      contents := (raw.drop 20).take (raw.field 5 2) }

def parseContinuation (raw : Bytes) : Except Error Continuation :=
  if raw.field 5 2 > raw.length - headerLength then
    .error (.lengthOver (raw.field 5 2) (raw.length - headerLength))
  else .ok
    { messageId := raw.field 0 4
      index := raw.field 4 1
      contents := (raw.drop 7).take (raw.field 5 2) }

/-- Reads a part; its size is the length of the bytes. -/
def parse (raw : Bytes) : Except Error Part :=
  match isFirst raw with
  | .error e => .error e
  | .ok true => (parseFirst raw).map .first
  | .ok false => (parseContinuation raw).map .continuation

end PartRelay.Part
