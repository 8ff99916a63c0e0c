import PartRelay.Config.Settings
import PartRelay.Files.Directory
import PartRelay.Json.Parser
import PartRelay.Json.Printer
import PartRelay.Text.Case
import PartRelay.Text.Lines
import PartRelay.Text.Utf8
import PartRelay.Yaml.Document
import PartRelay.Yaml.Printer

/-!
# Settings in files

Settings are kept as JSON, or as YAML where the name of the file says so.
-/

namespace PartRelay.Settings

/-! ## Formats -/

inductive Format where
  | json
  | yaml
  deriving DecidableEq

/-- The format that the suffix of a path stands for, in any letter case. -/
def formatOf (path : Path) : Format :=
  if path.suffix.lower = ".yaml" ∨ path.suffix.lower = ".yml" then .yaml else .json

/-! ## Faults -/

inductive LoadError where
  | notFound (path : Path)
  /-- Whether there is a file cannot be found out. -/
  | lookup (cause : Directory.Error)
  | unreadable (path : Path) (cause : Directory.Error)
  | badJson (path : Path) (reason : Text)
  /-- YAML that is not well formed; there is no more to say about it. -/
  | badYaml (path : Path)
  /-- Well formed YAML without a value. -/
  | yaml (cause : Yaml.ReadError)
  /-- YAML files are not served. -/
  | noYaml
  | notAMapping (path : Path)
  | field (cause : SettingError)
  | invalid (cause : Fault)

def LoadError.message : LoadError → Text
  | .notFound path => "server config not found: " ++ path.text
  | .lookup cause => cause.message
  | .unreadable path cause =>
    Text.join ["cannot read server config ", path.text, ": ", cause.message]
  | .badJson path reason =>
    Text.join ["invalid server config JSON in ", path.text, ": ", reason]
  | .badYaml path => Text.join ["invalid server config YAML in ", path.text, ":"]
  | .yaml cause => cause.message
  | .noYaml => "PyYAML is required to load YAML server configs"
  | .notAMapping path => "server config must be a mapping: " ++ path.text
  | .field cause => cause.message
  | .invalid cause => cause.message

/-! ## Loading -/

instance : FieldValue Yaml.Value where
  isNull v := match v with
    | .null => true
    | _ => false
  text v := if v.isWritable then .ok v.display else .error .tooLong
  integer := Yaml.Value.toInt

/-- The settings of fields, which have to be valid. -/
def ofValidFields {α : Type} [FieldValue α] (fields : Table Text α) :
    Except LoadError Settings := do
  let s ← (ofFields fields).mapError .field
  s.validate.mapError .invalid
  return s

/-- The text of a file. -/
def readText (bs : Bytes) : Except Utf8.ReadError Text := (Utf8.read bs).map Text.withLineFeeds

def ofJson (path : Path) (bs : Bytes) : Except LoadError Settings :=
  match readText bs with
  | .error e => .error (.badJson path e.message)
  | .ok t =>
    match Json.read t with
    | .error e => .error (.badJson path e.message)
    | .ok (.object fields) => ofValidFields fields
    | .ok _ => .error (.notAMapping path)

/-- The settings of a YAML file. Nothing counts as a mapping without fields, and fields whose keys
are no texts do not count. -/
def ofYaml (path : Path) (bs : Bytes) : Except LoadError Settings :=
  match readText bs with
  | .error _ => .error (.badYaml path)
  | .ok t =>
    match Yaml.read t with
    | .error .malformed => .error (.badYaml path)
    | .error e => .error (.yaml e)
    | .ok value =>
      match value with
      | .mapping fields => ofValidFields (Yaml.Value.textFields fields)
      | value =>
        if value.isNothing then ofValidFields ([] : Table Text Yaml.Value)
        else .error (.notAMapping path)

/-- Loads the settings in a file; YAML is read only where `yaml` says so. -/
def load (d : Directory) (yaml : Bool) (path : Path) : Except LoadError Settings :=
  match d.exists? path with
  | .error e => .error (.lookup e)
  | .ok false => .error (.notFound path)
  | .ok true =>
    if formatOf path = .yaml ∧ !yaml then .error .noYaml
    else match d.read path with
      | .error e => .error (.unreadable path e)
      | .ok bs => if formatOf path = .yaml then ofYaml path bs else ofJson path bs

/-! ## Saving -/

inductive SaveError where
  /-- YAML files are not served. -/
  | noYaml
  | unwritable (cause : Directory.Error)

def SaveError.message : SaveError → Text
  | .noYaml => "PyYAML is required to write YAML server configs"
  | .unwritable cause => cause.message

/-- The settings as the text of a file. -/
def render (s : Settings) : Format → Text
  | .json => Json.renderLines s.toFields
  | .yaml => Yaml.renderFields s.toFields

def save (d : Directory) (yaml : Bool) (path : Path) (s : Settings) :
    Except SaveError Directory :=
  if formatOf path = .yaml ∧ !yaml then .error .noYaml
  else (d.write path (Utf8.write (s.render (formatOf path)))).mapError .unwritable

end PartRelay.Settings
