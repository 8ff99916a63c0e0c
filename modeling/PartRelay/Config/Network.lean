import PartRelay.Bytes.Hex
import PartRelay.Files.Directory
import PartRelay.Json.Parser
import PartRelay.Text.Blank
import PartRelay.Text.Lines
import PartRelay.Text.Utf8

/-!
# Network definitions

The network definition file gives the prime of the mix network as hexadecimal text. A network
message is two payloads of the prime's length; what is left of it behind keys, addresses and version
is the size of a message part.
-/

namespace PartRelay

/-! ## Message geometry -/

/-- The lengths in bytes of what a network message holds beside its contents. -/
structure MessageGeometry where
  primeSize : Int
  deriving DecidableEq

namespace MessageGeometry

def fingerprintLength : Int := 32

def macLength : Int := 32

/-- An ephemeral id and a service identification hash. -/
def recipientLength : Int := 8 + 25

def versionLength : Int := 1

def minPrimeSize : Int := 2 * macLength + recipientLength

def associatedSize : Int := fingerprintLength + macLength + recipientLength

def totalSize (g : MessageGeometry) : Int := 2 * g.primeSize

def contentsSize (g : MessageGeometry) : Int := g.totalSize - associatedSize - versionLength

end MessageGeometry

/-! ## Faults -/

namespace Network

/-- Why a prime gives no size. -/
inductive FormatError where
  | emptyPrime
  | badHex (cause : Hex.ReadError)
  | primeTooShort (size : Int)

def FormatError.message : FormatError → Text
  | .emptyPrime => "invalid prime hex: empty"
  | .badHex cause => "invalid prime hex: " ++ cause.message
  | .primeTooShort size => Text.join
      ["prime of ", Text.ofInt size, " bytes is below the minimum of ",
       Text.ofInt MessageGeometry.minPrimeSize]

/-- Why a file gives no definition. -/
inductive LoadError where
  /-- The path is that of no file. -/
  | name (cause : Path.NameError)
  | unreadable (path : Path) (reason : Text)
  | malformed (path : Path) (cause : Json.ReadError)
  | notAnObject
  | noPrime
  | primeNotText

def LoadError.message : LoadError → Text
  | .name cause => cause.message
  | .unreadable path reason => Text.join ["cannot read ndf ", path.text, ": ", reason]
  | .malformed path cause => Text.join ["invalid ndf JSON in ", path.text, ": ", cause.message]
  | .notAnObject => "ndf must be a JSON object"
  | .noPrime => "ndf missing cmix prime"
  | .primeNotText => "ndf cmix prime must be a hex string"

/-- Why a file gives no size. -/
inductive Error where
  | load (cause : LoadError)
  | format (cause : FormatError)

def Error.message : Error → Text
  | .load cause => cause.message
  | .format cause => cause.message

end Network

def MessageGeometry.create (primeSize : Int) : Except Network.FormatError MessageGeometry :=
  if primeSize < minPrimeSize then .error (.primeTooShort primeSize) else .ok ⟨primeSize⟩

/-! ## Definitions -/

structure Network where
  primeHex : Text
  deriving DecidableEq

namespace Network

def ofJson (j : Json) : Except LoadError Network :=
  match j with
  | .object _ =>
    match j.fieldOrNull "Cmix" with
    | .object fields =>
      match (Json.object fields).fieldOrNull "Prime" with
      | .null => .error .noPrime
      | .string [] => .error .noPrime
      | .string prime => .ok ⟨prime⟩
      | _ => .error .primeNotText
    | _ => .error .noPrime
  | _ => .error .notAnObject

def toJson (n : Network) : Json :=
  .object [("Cmix", .object [("Prime", .string n.primeHex)])]

/-- The digits of the prime: no blanks, and no `0x` before them. -/
def digits (n : Network) : Text :=
  match n.primeHex.withoutBlanks with
  | z :: x :: t => if z = '0' && (x = 'x' || x = 'X') then t else z :: x :: t
  | t => t

def prime (n : Network) : Except FormatError Bytes :=
  if n.digits.isEmpty then .error .emptyPrime else (Hex.read n.digits).mapError .badHex

def geometry (n : Network) : Except FormatError MessageGeometry :=
  match n.prime with
  | .error e => .error e
  | .ok bs => MessageGeometry.create bs.length

/-- Reads the definition in a file. -/
def load (d : Directory) (path : Path) : Except LoadError Network :=
  match d.read path with
  | .error (.name e) => .error (.name e)
  | .error e => .error (.unreadable path e.message)
  | .ok bs =>
    match Utf8.read bs with
    | .error e => .error (.unreadable path e.message)
    | .ok t =>
      match Json.read t.withLineFeeds with
      | .error e => .error (.malformed path e)
      | .ok j => ofJson j

/-- The size of a message part in the network that a file defines. -/
def maxFragmentSize (d : Directory) (path : Path) : Except Error Int :=
  match load d path with
  | .error e => .error (.load e)
  | .ok n =>
    match n.geometry with
    | .error e => .error (.format e)
    | .ok g => .ok g.contentsSize

end Network

end PartRelay
