import PartRelay.Bytes.Hex
import PartRelay.Bytes.Sha256
import PartRelay.Sender

/-!
# Conversation keys

The parts of one message share a key: the hash of sender, fingerprint and message id. The length
before the fingerprint keeps the three apart.
-/

namespace PartRelay.Reassembly

/-- A number that four bytes do not hold. -/
inductive KeyError where
  | negative
  | tooBig

def KeyError.message : KeyError → Text
  | .negative => "can't convert negative int to unsigned"
  | .tooBig => "int too big to convert"

def fourBytes (n : Int) : Except KeyError Bytes :=
  if n < 0 then .error .negative
  else if 0xFFFFFFFF < n then .error .tooBig
  else .ok (Bytes.ofNat 4 n.toNat)

/-- What the key is the hash of. -/
def keyMaterial (sender : Sender) (fingerprint : Bytes) (messageId : Int) :
    Except KeyError Bytes :=
  match fourBytes fingerprint.length with
  | .error e => .error e
  | .ok length =>
    match fourBytes messageId with
    | .error e => .error e
    | .ok id => .ok (sender.raw ++ length ++ fingerprint ++ id)

/-- The hash as hexadecimal text. -/
def conversationKey (sender : Sender) (fingerprint : Bytes) (messageId : Int) :
    Except KeyError Text :=
  (keyMaterial sender fingerprint messageId).map fun bs => Hex.write (Sha256.hash bs)

end PartRelay.Reassembly
