import PartRelay.Bytes.Memory
import PartRelay.Text.Integer

/-!
# Message parts

A message travels in up to `maxParts` parts of one size. Every part carries the message id, its
index, the length of its contents and, last, a version byte; the first part also carries how many
parts there are, the message type and the time stamp.

| bytes | first part | continuation |
|---|---|---|
| 0 to 3 | message id | message id |
| 4 | zero | index, 1 to 255 |
| 5, 6 | length of the contents | length of the contents |
| 7 | number of parts | contents |
| 8 to 11 | message type | |
| 12 to 19 | time stamp | |
| then | contents, padding | padding |
| last | version | version |
-/

namespace PartRelay

/-! ## Sizes -/

namespace Part

/-- Message id, index, length and version. -/
def headerLength : Nat := 8

/-- The header with number of parts, message type and time stamp. -/
def firstHeaderLength : Nat := headerLength + 13

def maxParts : Nat := 255

def version : UInt8 := 0

/-- What fits into the first part of a message of the given part size. -/
def firstCapacity (size : Int) : Int := size - firstHeaderLength

/-- What fits into a continuation. -/
def capacity (size : Int) : Int := size - headerLength

/-- What fits into a message. -/
def maxPayload (size : Int) : Int := firstCapacity size + (maxParts - 1) * capacity size

end Part

/-! ## Parts -/

structure FirstPart where
  messageId : Int
  numParts : Int
  messageType : Int
  timestampNs : Int
  contents : Bytes
  deriving DecidableEq

structure Continuation where
  messageId : Int
  index : Int
  contents : Bytes
  deriving DecidableEq

inductive Part where
  | first (part : FirstPart)
  | continuation (part : Continuation)
  deriving DecidableEq

namespace Part

def messageId : Part → Int
  | .first p => p.messageId
  | .continuation p => p.messageId

/-- The place of the part in its message. -/
def index : Part → Int
  | .first _ => 0
  | .continuation p => p.index

def contents : Part → Bytes
  | .first p => p.contents
  | .continuation p => p.contents

/-! ## What is wrong with a part -/

/-- Why something is not a part, or not one that can be taken. -/
inductive Error where
  /-- Shorter than the header. -/
  | tooShort
  /-- Shorter than the header of a first part. -/
  | firstTooShort
  | noParts
  | lengthOver (length capacity : Int)
  | firstLengthOver (length capacity : Int)
  | contentsOver (length capacity : Int)
  | firstContentsOver (length capacity : Int)
  | indexRange
  | numPartsRange
  | messageTypeRange
  | timestampRange
  | messageIdRange
  /-- A payload that needs more than `maxParts` parts. -/
  | tooManyParts (count : Int)
  /-- A size that leaves no room behind the header. -/
  | noRoom (size : Int)
  | overFragmentSize (length limit : Int)
  | indexLimit (index : Int)
  /-- An index that a message of so many parts does not have; the number is given as shown. -/
  | indexOutOfRange (index : Int) (numParts : Text)

def Error.message : Error → Text
  | .tooShort => Text.join ["part must be at least ", Text.ofNat headerLength, " bytes"]
  | .firstTooShort =>
    Text.join ["first part must be at least ", Text.ofNat firstHeaderLength, " bytes"]
  | .noParts => "num_parts must be > 0"
  | .lengthOver length capacity => Text.join
      ["LEN ", Text.ofInt length, " exceeds part capacity ", Text.ofInt capacity]
  | .firstLengthOver length capacity => Text.join
      ["LEN ", Text.ofInt length, " exceeds first part capacity ", Text.ofInt capacity]
  | .contentsOver length capacity => Text.join
      ["contents length ", Text.ofInt length, " exceeds part capacity ", Text.ofInt capacity]
  | .firstContentsOver length capacity => Text.join
      ["contents length ", Text.ofInt length, " exceeds first part capacity ",
       Text.ofInt capacity]
  | .indexRange => "part must be 1..255"
  | .numPartsRange => "num_parts must be 1.." ++ Text.ofNat maxParts
  | .messageTypeRange => "message_type must fit in 32 bits"
  | .timestampRange => "timestamp_ns must fit in 64 bits"
  | .messageIdRange => "message_id must fit in 32 bits"
  | .tooManyParts count => Text.join
      ["payload needs ", Text.ofInt count, " parts which exceeds limit of ", Text.ofNat maxParts]
  | .noRoom size => Text.join ["message size ", Text.ofInt size, " leaves no room for contents"]
  | .overFragmentSize length limit => Text.join
      ["part length ", Text.ofInt length, " exceeds max fragment size ", Text.ofInt limit]
  | .indexLimit index => Text.join
      ["part index ", Text.ofInt index, " exceeds limit of ", Text.ofNat maxParts]
  | .indexOutOfRange index numParts => Text.join
      ["part index ", Text.ofInt index, " out of range for ", numParts, " parts"]

/-- The numbers in a message that have no bounds of their own. -/
def Error.numbers : Error → List Int
  | .contentsOver _ capacity | .firstContentsOver _ capacity => [capacity]
  | .tooManyParts count => [count]
  | .noRoom size => [size]
  | _ => []

/-- A number that its header field cannot hold. -/
inductive HeaderError where
  /-- A message id that no machine word holds. -/
  | notAWord
  /-- A message id of more than 32 bits. -/
  | messageId
  /-- A length of more than 16 bits. -/
  | length

def HeaderError.message : HeaderError → Text
  | .notAWord => "argument out of range"
  | .messageId => "'I' format requires 0 <= number <= 4294967295"
  | .length => "'H' format requires 0 <= number <= 65535"

/-- Why a part or a message cannot be written. -/
inductive WriteError where
  | part (cause : Error)
  /-- What is wrong with the part cannot be said, for a number that is too long. -/
  | number (cause : Integer.WriteError)
  | header (cause : HeaderError)
  /-- There is no room for the part. -/
  | memory (cause : Memory.Error)
  /-- A size at which continuations hold nothing, so that their number is no number. -/
  | noCapacity

def WriteError.message : WriteError → Text
  | .part cause => cause.message
  | .number cause => cause.message
  | .header cause => cause.message
  | .memory cause => cause.message
  | .noCapacity => "integer division or modulo by zero"

/-- What is wrong with a part, if it can be said. -/
def WriteError.ofError (e : Error) : WriteError :=
  if e.numbers.all Integer.isWritable then .part e else .number .tooLong

end Part

end PartRelay
