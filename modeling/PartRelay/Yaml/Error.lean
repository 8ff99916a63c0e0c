import PartRelay.Calendar.Timestamp
import PartRelay.Text.Integer

/-!
# Faults in YAML

Why a text has no value. A text that is not well formed has one fault only; scalars that are well
formed can still have no value, each kind for its own reasons.
-/

namespace PartRelay.Yaml

inductive ReadError where
  | malformed
  /-- An escape past the last code point. -/
  | codePoint
  /-- An escape of more than 31 bits. -/
  | codePointOverflow
  /-- An integer without digits; `base` is that of its notation. -/
  | emptyInteger (base : Nat)
  | integer (cause : Integer.ReadError)
  /-- A number in base sixty with more places than a fraction can have. -/
  | placeOverflow
  | timestamp (cause : Timestamp.Fault)

def ReadError.message : ReadError → Text
  | .malformed => []
  | .codePoint => "chr() arg not in range(0x110000)"
  | .codePointOverflow => "Python int too large to convert to C int"
  | .emptyInteger base => Text.join
      ["invalid literal for int() with base ", Text.ofNat base, ": ''"]
  | .integer cause => cause.message
  | .placeOverflow => "int too large to convert to float"
  | .timestamp cause => cause.message

end PartRelay.Yaml
