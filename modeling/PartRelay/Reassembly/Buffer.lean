import PartRelay.Json.Display
import PartRelay.Part.Basic
import PartRelay.Sender

/-!
# Buffers

The parts of a message that have arrived, in order of arrival, and what the first part said. The
number of parts is kept as the store holds it: null until the first part is there. It is not checked
when it is read back, only when it is used, and then a value that is no number fails in its own way.
-/

namespace PartRelay.Reassembly

/-- A message that is complete. -/
@[ext] structure Message where
  sender : Sender
  payload : Bytes
  messageType : Int
  timestampNs : Int
  messageId : Int
  fingerprint : Bytes
  deriving DecidableEq

structure Buffer where
  sender : Sender
  fingerprint : Bytes
  messageId : Int
  /-- When the first part to arrive came in. -/
  createdMs : Int
  numParts : Json := .null
  messageType : Int := 0
  timestampNs : Int := 0
  residue : Option Bytes := none
  /-- The contents by index. -/
  parts : Table Int Bytes := []

/-! ## Faults -/

/-- A first part that does not agree with what has arrived. -/
inductive Conflict where
  /-- Another number of parts has been declared before; that one is given as shown. -/
  | otherCount (declared : Int) (before : Text)
  /-- A part with this index is there already. -/
  | strayPart (index numParts : Int)

def Conflict.message : Conflict → Text
  | .otherCount declared before => Text.join
      ["first part declares ", Text.ofInt declared, " parts, previously ", before]
  | .strayPart index numParts => Text.join
      ["buffered part ", Text.ofInt index, " out of range for ", Text.ofInt numParts, " parts"]

/-- A stored number of parts that is no number. -/
inductive CountError where
  /-- It cannot be compared with an index. -/
  | incomparable (kind : Text)
  /-- It cannot be counted up to. -/
  | uncountable (kind : Text)

def CountError.message : CountError → Text
  | .incomparable kind => Text.join
      ["'>=' not supported between instances of 'int' and '", kind, "'"]
  | .uncountable kind => Text.join ["'", kind, "' object cannot be interpreted as an integer"]

/-- Why a part is not put into a buffer. -/
inductive InsertError where
  | part (cause : Part.Error)
  | conflict (cause : Conflict)
  | count (cause : CountError)

/-! ## The number of parts -/

/-- Whether a stored number equals `n`; a truth value counts as one or zero. -/
def countIs (count : Json) (n : Int) : Bool :=
  match count with
  | .int m => m == n
  | .bool b => (if b then 1 else 0) == n
  | .float x => x.isInt n
  | _ => false

/-- Whether a stored number is at most `index`. -/
def countAtMost (count : Json) (index : Int) : Except CountError Bool :=
  match count with
  | .null => .ok false
  | .int n => .ok (n ≤ index)
  | .bool b => .ok ((if b then 1 else 0) ≤ index)
  | .float x => .ok (x.leInt index)
  | j => .error (.incomparable j.kindName)

/-- The stored number, none where there is none yet. -/
def countOf (count : Json) : Except CountError (Option Int) :=
  match count with
  | .null => .ok none
  | .int n => .ok (some n)
  | .bool b => .ok (some (if b then 1 else 0))
  | j => .error (.uncountable j.kindName)

namespace Buffer

/-! ## Taking parts in -/

/-- The greatest index that is not below `n`. -/
def greatestStray? (b : Buffer) (n : Int) : Option Int :=
  (b.parts.keys.filter (n ≤ ·)).max?

/-- Takes a first part in, and what it says in place of what was said before. -/
def insertFirst (b : Buffer) (p : FirstPart) (residue : Option Bytes) : Except Conflict Buffer :=
  let isNew := match b.numParts with
    | .null => true
    | count => countIs count p.numParts
  if !isNew then .error (.otherCount p.numParts b.numParts.display)
  else match b.greatestStray? p.numParts with
    | some index => .error (.strayPart index p.numParts)
    | none => .ok
      { b with
        numParts := .int p.numParts
        messageType := p.messageType
        timestampNs := p.timestampNs
        residue
        parts := b.parts.set 0 p.contents }

/-- Takes a part in. A part with the same index is replaced. -/
def insert (b : Buffer) (part : Part) (residue : Option Bytes) : Except InsertError Buffer :=
  match part with
  | .first p => (b.insertFirst p residue).mapError .conflict
  | .continuation p =>
    match countAtMost b.numParts p.index with
    | .error e => .error (.count e)
    | .ok true => .error (.part (.indexOutOfRange p.index b.numParts.display))
    | .ok false => .ok { b with parts := b.parts.set p.index p.contents }

/-! ## Completion -/

/-- Whether every index below `n` is there. A number above that of the parts needs no look. -/
def holdsBelow (b : Buffer) (n : Int) : Bool :=
  n ≤ b.parts.length && (List.range n.toNat).all fun (i : Nat) => b.parts.contains i

/-- The contents of the parts below `n`, in order. -/
def payload (b : Buffer) (n : Int) : Bytes :=
  (List.range n.toNat).flatMap fun (i : Nat) => (b.parts.get? i).getD []

/-- The message, once every part that was declared is there. -/
def complete? (b : Buffer) : Except CountError (Option Message) :=
  match countOf b.numParts with
  | .error e => .error e
  | .ok none => .ok none
  | .ok (some n) =>
    if b.holdsBelow n then .ok (some
      { sender := b.sender
        payload := b.payload n
        messageType := b.messageType
        timestampNs := b.timestampNs
        messageId := b.messageId
        fingerprint := b.fingerprint })
    else .ok none

end Buffer

end PartRelay.Reassembly
