import PartRelay.Part.Codec
import PartRelay.Reassembly.BufferCodec
import PartRelay.Reassembly.Key
import PartRelay.Store.Basic

/-!
# The reassembler

Parts come in one at a time, in any order and from many senders. Each goes into the buffer of its
conversation, which the store holds between two parts; the part that completes the buffer gives the
message and takes the buffer out of the store. Buffers that have been open for `ttlMs` are removed
whenever a part comes in: an index of the open buffers says when each was opened.

A step gives its result and the state after it, also when it fails.
-/

namespace PartRelay.Reassembly

/-! ## Settings and state -/

def defaultTtlMs : Int := 24 * 60 * 60 * 1000

/-- The step of the store's paths below which buffers are kept. -/
def viewName : Text := "partition"

def bufferVersion : Int := 0

structure Reassembler where
  view : View
  maxFragmentSize : Int
  ttlMs : Int

/-- The store, and when each buffer that this reassembler opened was opened. -/
@[ext] structure State where
  store : Store := []
  active : Table Text Int := []

namespace Reassembler

inductive SetupError where
  /-- Fragments that have no room for the contents of a first part. -/
  | fragmentSize
  | ttl
  | view (cause : View.NameError)

def SetupError.message : SetupError → Text
  | .fragmentSize => "max_fragment_size must be > " ++ Text.ofNat Part.firstHeaderLength
  | .ttl => "ttl_ms must be > 0"
  | .view cause => cause.message

/-- A reassembler that keeps its buffers below the view `root`. -/
def create (root : View) (maxFragmentSize ttlMs : Int) : Except SetupError Reassembler :=
  if maxFragmentSize ≤ Part.firstHeaderLength then .error .fragmentSize
  else if ttlMs ≤ 0 then .error .ttl
  else match root.child viewName with
    | .error e => .error (.view e)
    | .ok view => .ok { view, maxFragmentSize, ttlMs }

end Reassembler

/-- A part as it comes in. -/
structure Delivery where
  sender : Sender
  contents : Bytes
  fingerprint : Option Bytes := none
  residue : Option Bytes := none

/-- What an accepted part leads to. -/
inductive Progress where
  | pending
  | complete (message : Message) (residue : Option Bytes)

/-- Why a part is refused. -/
inductive Refusal where
  | part (cause : Part.Error)
  | conflict (cause : Conflict)
  | key (cause : KeyError)
  | store (cause : View.ReadError)
  | buffer (cause : Buffer.ReadError)
  | count (cause : CountError)
  /-- A number of the buffer, or its time, is too long to be stored. -/
  | number (cause : Integer.WriteError)

def Refusal.message : Refusal → Text
  | .part cause => cause.message
  | .conflict cause => cause.message
  | .key cause => cause.message
  | .store cause => cause.message
  | .buffer cause => cause.message
  | .count cause => cause.message
  | .number cause => cause.message

def Refusal.ofInsertError : InsertError → Refusal
  | .part cause => .part cause
  | .conflict cause => .conflict cause
  | .count cause => .count cause

namespace Reassembler

/-! ## Buffers in the store -/

/-- The buffer of a key, none where the store has no entry for it. -/
def load (r : Reassembler) (s : State) (key : Text) : Except Refusal (Option Buffer) :=
  match r.view.get s.store key bufferVersion with
  | .error (.absent _) => .ok none
  | .error e => .error (.store e)
  | .ok record =>
    match Buffer.decode r.view.levels.most record.data with
    | .error e => .error (.buffer e)
    | .ok b => .ok (some b)

/-- Writes a buffer. The index keeps the time that it has for the key. -/
def save (r : Reassembler) (now : Int) (s : State) (key : Text) (b : Buffer) :
    Except Integer.WriteError State :=
  match b.encode with
  | .error e => .error e
  | .ok bs =>
    match r.view.set s.store now key bufferVersion bs with
    | .error e => .error e
    | .ok store => .ok
      { store
        active := if s.active.contains key then s.active else s.active.set key b.createdMs }

def delete (r : Reassembler) (s : State) (key : Text) : State :=
  { store := r.view.delete s.store key bufferVersion
    active := s.active.erase key }

/-! ## Expiry -/

/-- The keys of the buffers that were opened `ttlMs` ago or earlier. -/
def stale (r : Reassembler) (now : Int) (s : State) : List Text :=
  (s.active.filter fun entry => entry.2 ≤ now - r.ttlMs).map Prod.fst

/-- Removes the stale buffers. -/
def prune (r : Reassembler) (now : Int) (s : State) : State :=
  (r.stale now s).foldl r.delete s

/-- How many buffers `prune` removes. -/
def pruneCount (r : Reassembler) (now : Int) (s : State) : Nat := (r.stale now s).length

/-! ## Parts -/

/-- The checks that need no state: length, layout, index and key. -/
def check (r : Reassembler) (d : Delivery) : Except Refusal (Part × Text) :=
  if d.contents.length > r.maxFragmentSize then
    .error (.part (.overFragmentSize d.contents.length r.maxFragmentSize))
  else match Part.parse d.contents with
    | .error e => .error (.part e)
    | .ok part =>
      if part.index ≥ Part.maxParts then .error (.part (.indexLimit part.index))
      else match conversationKey d.sender (d.fingerprint.getD []) part.messageId with
        | .error e => .error (.key e)
        | .ok key => .ok (part, key)

/-- The buffer that a part goes into: the stored one, or one that the part opens. -/
def bufferFor (r : Reassembler) (now : Int) (s : State) (d : Delivery) (part : Part) (key : Text) :
    Except Refusal Buffer :=
  match r.load s key with
  | .error e => .error e
  | .ok (some b) => .ok b
  | .ok none => .ok
    { sender := d.sender
      fingerprint := d.fingerprint.getD []
      messageId := part.messageId
      createdMs := now }

/-- Puts a checked part into its buffer: the buffer after it, and the message if it is complete. -/
def extend (r : Reassembler) (now : Int) (s : State) (d : Delivery) (part : Part) (key : Text) :
    Except Refusal (Buffer × Option Message) :=
  match r.bufferFor now s d part key with
  | .error e => .error e
  | .ok opened =>
    match opened.insert part d.residue with
    | .error e => .error (.ofInsertError e)
    | .ok b =>
      match b.complete? with
      | .error e => .error (.count e)
      | .ok message => .ok (b, message)

/-- Takes a part in at time `now`. -/
def handle (r : Reassembler) (now : Int) (s : State) (d : Delivery) :
    Except Refusal Progress × State :=
  match r.check d with
  | .error e => (.error e, s)
  | .ok (part, key) =>
    let pruned := r.prune now s
    match r.extend now pruned d part key with
    | .error e => (.error e, pruned)
    | .ok (b, none) =>
      match r.save now pruned key b with
      | .error e => (.error (.number e), pruned)
      | .ok saved => (.ok .pending, saved)
    | .ok (b, some message) => (.ok (.complete message b.residue), r.delete pruned key)

/-- The state that a new reassembler finds: the same store, and an empty index. -/
def restart (s : State) : State := { s with active := [] }

end Reassembler

end PartRelay.Reassembly
