import PartRelay.Part.Codec

/-!
# Splitting

Cuts a payload into the parts of one message: as much as fits into the first part, then full
continuations and one that holds what is left.
-/

namespace PartRelay.Part

/-- How many parts a payload needs. The number of continuations is rounded up, also where their
capacity is negative. -/
def count (payloadLength size : Int) : Except WriteError Int :=
  if payloadLength ≤ firstCapacity size then .ok 1
  else if capacity size = 0 then .error .noCapacity
  else
    let total := 1 - Int.fdiv (firstCapacity size - payloadLength) (capacity size)
    if total > maxParts then .error (.ofError (.tooManyParts total)) else .ok total

/-- The continuations of a message, numbered from `index` on. -/
def encodeRest (memory : Memory) (size messageId : Int) :
    (index : Nat) → List Bytes → Except WriteError (List Bytes)
  | _, [] => .ok []
  | index, piece :: rest =>
    match encodeContinuation memory ⟨messageId, index, piece⟩ size with
    | .error e => .error e
    | .ok bs => (encodeRest memory size messageId (index + 1) rest).map (bs :: ·)

/-- The parts of a message, each of `size` bytes. -/
def split (memory : Memory) (payload : Bytes) (size messageId messageType timestampNs : Int) :
    Except WriteError (List Bytes) :=
  if firstCapacity size ≤ 0 then .error (.ofError (.noRoom size))
  else if !fitsBits 32 messageId then .error (.part .messageIdRange)
  else match count payload.length size with
    | .error e => .error e
    | .ok numParts =>
      let first : FirstPart :=
        { messageId, numParts, messageType, timestampNs
          contents := payload.take (firstCapacity size).toNat }
      match encodeFirst memory first size with
      | .error e => .error e
      | .ok bs =>
        (encodeRest memory size messageId 1
          (Bytes.pieces (capacity size).toNat (payload.drop (firstCapacity size).toNat))).map
          (bs :: ·)

end PartRelay.Part
