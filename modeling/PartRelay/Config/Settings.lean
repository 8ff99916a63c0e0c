import PartRelay.Config.Address
import PartRelay.Json.Display
import PartRelay.Json.Printer
import PartRelay.Text.Blank

/-!
# Server settings

Six settings, each with a default. They are read from the fields of an object, one conversion a
field: texts take any value as it is shown, numbers take any value that has an integer. The first
field without its text or its integer is the fault.
-/

namespace PartRelay

/-! ## Values of fields -/

/-- Values that settings can be read from. -/
class FieldValue (α : Type) where
  isNull : α → Bool
  /-- The value as it is shown. -/
  text : α → Except Integer.WriteError Text
  integer : α → Except Json.IntegerError Int

instance : FieldValue Json where
  isNull j := match j with
    | .null => true
    | _ => false
  text j := if j.isWritable then .ok j.display else .error .tooLong
  integer := Json.toInt

/-- Why a field gives no setting. -/
inductive SettingError where
  | text (cause : Integer.WriteError)
  | integer (cause : Json.IntegerError)

def SettingError.message : SettingError → Text
  | .text cause => cause.message
  | .integer cause => cause.message

/-! ## Settings -/

def defaultAddress : Text := ":8080"

def defaultNetworkPath : Text := "ndf.json"

def defaultRunId : Text := "parts"

def defaultPartTtlMs : Int := 24 * 60 * 60 * 1000

def defaultMaxBodyBytes : Int := 1024 * 1024

@[ext] structure Settings where
  address : Text := defaultAddress
  networkPath : Text := defaultNetworkPath
  logDirectory : Option Text := none
  runId : Text := defaultRunId
  partTtlMs : Int := defaultPartTtlMs
  maxBodyBytes : Int := defaultMaxBodyBytes
  deriving DecidableEq

namespace Settings

/-! ## Conversions -/

section Fields

variable {α : Type} [FieldValue α]

/-- The text of a value. -/
def valueText (value : α) : Except SettingError Text := (FieldValue.text value).mapError .text

/-- The text of a field, or its default where the field is not there. -/
def textField (fields : Table Text α) (key default : Text) : Except SettingError Text :=
  match fields.get? key with
  | none => .ok default
  | some value => valueText value

/-- The text of a field without the blanks at its ends; null and blank text are nothing. -/
def optionalField (fields : Table Text α) (key : Text) : Except SettingError (Option Text) :=
  match fields.get? key with
  | none => .ok none
  | some value =>
    if FieldValue.isNull value then .ok none
    else (valueText value).map fun t => if t.strip.isEmpty then none else some t.strip

/-- The integer of a field, or its default where the field is not there. -/
def intField (fields : Table Text α) (key : Text) (default : Int) : Except SettingError Int :=
  match fields.get? key with
  | none => .ok default
  | some value => (FieldValue.integer value).mapError .integer

def ofFields (fields : Table Text α) : Except SettingError Settings := do
  let address ← textField fields "addr" defaultAddress
  let networkPath ← textField fields "ndf_path" defaultNetworkPath
  let logDirectory ← optionalField fields "log_dir"
  let runId ← textField fields "run_id" defaultRunId
  let partTtlMs ← intField fields "partition_ttl_ms" defaultPartTtlMs
  let maxBodyBytes ← intField fields "max_body_bytes" defaultMaxBodyBytes
  return { address, networkPath, logDirectory, runId, partTtlMs, maxBodyBytes }

end Fields

def toFields (s : Settings) : Table Text Json :=
  [("addr", .string s.address),
   ("ndf_path", .string s.networkPath),
   ("log_dir", match s.logDirectory with
     | none => .null
     | some t => .string t),
   ("run_id", .string s.runId),
   ("partition_ttl_ms", .int s.partTtlMs),
   ("max_body_bytes", .int s.maxBodyBytes)]

/-- The settings with other values for some fields. Null leaves a field as it is. -/
def override (s : Settings) (overrides : Table Text Json) : Except SettingError Settings :=
  ofFields (s.toFields.update (overrides.filter fun entry => !FieldValue.isNull entry.2))

/-! ## Validity -/

inductive Fault where
  | address (cause : Address.ParseError)
  | noNetworkPath
  | noRunId
  | partTtl
  | maxBody

def Fault.message : Fault → Text
  | .address cause => cause.message
  | .noNetworkPath => "ndf_path must be non-empty"
  | .noRunId => "run_id must be non-empty"
  | .partTtl => "partition_ttl_ms must be > 0"
  | .maxBody => "max_body_bytes must be > 0"

/-- Whether a server can run with the settings, and else the first thing that is wrong. -/
def validate (s : Settings) : Except Fault Unit :=
  match Address.parse s.address with
  | .error e => .error (.address e)
  | .ok _ =>
    if s.networkPath.isEmpty then .error .noNetworkPath
    else if s.runId.isEmpty then .error .noRunId
    else if s.partTtlMs ≤ 0 then .error .partTtl
    else if s.maxBodyBytes ≤ 0 then .error .maxBody
    else .ok ()

end Settings

end PartRelay
