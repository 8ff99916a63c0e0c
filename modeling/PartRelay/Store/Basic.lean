import PartRelay.Json.Fields
import PartRelay.Json.Parser
import PartRelay.Json.Printer
import PartRelay.Text.Utf8

/-!
# The versioned store

The raw store maps texts to bytes. A *view* of it puts its path before every key and the version
behind, and keeps with the data the version and the time of writing, as one JSON object. What is
stored may be nested too deep to be read.
-/

namespace PartRelay

abbrev Store := Table Text Bytes

/-! ## Records -/

/-- Data with the version and the time in milliseconds under which they were written. -/
@[ext] structure Record where
  version : Int
  timestampMs : Int
  data : Bytes
  deriving DecidableEq

namespace Record

/-- The record as an object with its keys in order. -/
def toJson (r : Record) : Json :=
  .object [("data", .string (Base64.write r.data)), ("timestamp_ms", .int r.timestampMs),
    ("version", .int r.version)]

/-- The bytes that are stored, as long as version and time can be written. -/
def encode (r : Record) : Except Integer.WriteError Bytes := r.toJson.render?.map Utf8.write

def ofJson (j : Json) : Except Json.FieldError Record :=
  match j.requireInt "version" with
  | .error e => .error e
  | .ok version =>
    match j.requireInt "timestamp_ms" with
    | .error e => .error e
    | .ok timestampMs =>
      match j.requireBytes "data" with
      | .error e => .error e
      | .ok data => .ok { version, timestampMs, data }

/-- Why bytes are no record. -/
inductive ReadError where
  | utf8 (cause : Utf8.ReadError)
  | json (cause : Json.ReadError)
  | field (cause : Json.FieldError)

def ReadError.message : ReadError → Text
  | .utf8 cause => cause.message
  | .json cause => cause.message
  | .field cause => cause.message

def decode (levels : Nat) (bs : Bytes) : Except ReadError Record :=
  match Utf8.read bs with
  | .error e => .error (.utf8 e)
  | .ok t =>
    match Json.readWithin levels t with
    | .error e => .error (.json e)
    | .ok j => (ofJson j).mapError .field

end Record

/-! ## Views -/

/-- A part of the store: the keys under one path, and how many levels what is stored may have. -/
structure View where
  path : Text := []
  levels : Json.Levels
  deriving DecidableEq

namespace View

/-- A name that cannot be a step of a path. -/
structure NameError where
  name : Text

def NameError.message (e : NameError) : Text := "invalid prefix: " ++ e.name.quoted

/-- The view one step below. A name must not be empty and must not hold a slash. -/
def child (v : View) (name : Text) : Except NameError View :=
  if name.isEmpty || name.contains (CodePoint.ofChar '/') then .error ⟨name⟩
  else .ok { v with path := v.path ++ name ++ "/" }

/-- Where the raw store holds a key of the view. -/
def rawKey (v : View) (key : Text) (version : Int) : Text :=
  v.path ++ key ++ "_v" ++ Text.ofInt version

/-- Why a key gives no record. -/
inductive ReadError where
  /-- The raw store has no such key. -/
  | absent (rawKey : Text)
  | record (cause : Record.ReadError)
  /-- The record says that it is of another version. -/
  | otherVersion (stored wanted : Int) (key : Text)

def ReadError.message : ReadError → Text
  | .absent rawKey => rawKey.quoted
  | .record cause => cause.message
  | .otherVersion stored wanted key => Text.join
      ["stored version ", Text.ofInt stored, " does not match ", Text.ofInt wanted, " for ", key]

def get (v : View) (store : Store) (key : Text) (version : Int) : Except ReadError Record :=
  match Table.get? store (v.rawKey key version) with
  | none => .error (.absent (v.rawKey key version))
  | some bs =>
    match Record.decode v.levels.most bs with
    | .error e => .error (.record e)
    | .ok r =>
      if r.version ≠ version then .error (.otherVersion r.version version key) else .ok r

/-- Writes data at time `now`. -/
def set (v : View) (store : Store) (now : Int) (key : Text) (version : Int) (data : Bytes) :
    Except Integer.WriteError Store :=
  (Record.encode ⟨version, now, data⟩).map (Table.set store (v.rawKey key version))

def delete (v : View) (store : Store) (key : Text) (version : Int) : Store :=
  Table.erase store (v.rawKey key version)

end View

end PartRelay
