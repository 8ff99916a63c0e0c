import PartRelay.Store.Basic

/-!
# Store listings

The records of a store in order of their raw keys, with their data as text.
-/

namespace PartRelay.Store

/-- A record under its raw key. -/
structure Row where
  key : Text
  /-- The time of writing, as it is stored. -/
  timestampMs : Json
  content : Text

/-- A raw key without its version, and the version; no version counts as zero. -/
def splitKey (rawKey : Text) : Text × Int :=
  match Text.cutLast? 'v' rawKey with
  | none => (rawKey, 0)
  | some (before, version) =>
    match Integer.read version with
    | .ok n => (before.dropLast, n)
    | .error _ => (rawKey, 0)

/-- The time of writing in the object of stored bytes. -/
def storedTime (bs : Bytes) : Json :=
  match Utf8.read bs with
  | .error _ => .null
  | .ok t =>
    match Json.read t with
    | .error _ => .null
    | .ok j => j.fieldOrNull "timestamp_ms"

/-- The row of a raw key, read through the root view. -/
def row (root : View) (store : Store) (rawKey : Text) : Except View.ReadError Row :=
  let (key, version) := splitKey rawKey
  match root.get store key version with
  | .error e => .error e
  | .ok r =>
    match Utf8.read r.data with
    | .error e => .error (.record (.utf8 e))
    | .ok content => .ok ⟨rawKey, storedTime ((Table.get? store rawKey).getD []), content⟩

/-- Puts a key into its place among keys in order. -/
def insertKey (key : Text) : List Text → List Text
  | [] => [key]
  | other :: keys =>
    if Text.le key other then key :: other :: keys else other :: insertKey key keys

def rows (root : View) (store : Store) : List Text → Except View.ReadError (List Row)
  | [] => .ok []
  | key :: keys =>
    match store.row root key with
    | .error e => .error e
    | .ok r => (rows root store keys).map (r :: ·)

/-- The rows of all keys in order, or the first fault on the way. -/
def listing (root : View) (store : Store) : Except View.ReadError (List Row) :=
  rows root store (store.keys.foldr insertKey [])

end PartRelay.Store
