import PartRelay.Text.Basic
import PartRelay.Text.Utf8

/-!
# Paths

A path is a list of steps. Empty steps and single dots do not count; two dots are kept. The names of
files are bytes: a text is written in UTF-8, and a surrogate of a certain range stands for a byte.
-/

namespace PartRelay

structure Path where
  /-- The slashes that the path starts with, two of them kept apart from one. -/
  root : Text := []
  steps : List Text := []
  deriving DecidableEq

namespace Path

/-- The slashes that count at the start of a text: three or more are one. -/
def rootOf (t : Text) : Text :=
  let slashes := t.takeWhile (· == CodePoint.ofChar '/')
  if 2 < slashes.length then "/" else slashes

def ofText (t : Text) : Path :=
  { root := rootOf t
    steps := (t.splitOn '/').filter fun step => !step.isEmpty && step ≠ ("." : Text) }

/-- The steps with slashes between them, a dot for no steps. -/
def text (p : Path) : Text :=
  if p.root.isEmpty && p.steps.isEmpty then "." else p.root ++ Text.intercalate "/" p.steps

/-- Whether the path starts at the root. -/
def absolute (p : Path) : Bool := !p.root.isEmpty

/-- The path below `p`. An absolute one stands for itself. -/
def append (p q : Path) : Path := if q.absolute then q else { p with steps := p.steps ++ q.steps }

/-- The last step from its last dot on; a dot at either end does not count. -/
def suffix (p : Path) : Text :=
  match Text.cutLast? '.' (p.steps.getLast?.getD []) with
  | none => []
  | some (before, after) =>
    if before.isEmpty || after.isEmpty then [] else CodePoint.ofChar '.' :: after

/-! ## Names -/

/-- Whether a code point stands for a byte above `0x7F`. -/
def isEscapedByte (c : CodePoint) : Bool := c.between 0xDC80 0xDCFF

/-- The bytes of a name. -/
def nameBytes (t : Text) : Bytes :=
  t.flatMap fun c => if isEscapedByte c then [UInt8.ofNat (c.val - 0xDC00)] else Utf8.writePoint c

/-- Why a text is the path of no file. -/
inductive NameError where
  /-- Surrogates from `start` up to `stop`, of which `first` stands for no byte. -/
  | surrogates (first : CodePoint) (start stop : Nat)
  | nul
  deriving DecidableEq

def NameError.message : NameError → Text
  | .surrogates first start stop =>
    if stop = start + 1 then Text.join
      ["'utf-8' codec can't encode character '\\u", Text.ofHex 4 first.val, "' in position ",
       Text.ofNat start, ": surrogates not allowed"]
    else Text.join
      ["'utf-8' codec can't encode characters in position ", Text.ofNat start, "-",
       Text.ofNat (stop - 1), ": surrogates not allowed"]
  | .nul => "embedded null byte"

/-- The first surrogate that stands for no byte, with those behind it. -/
def strayFrom? : Text → (position : Nat) → Option NameError
  | [], _ => none
  | c :: t, position =>
    if c.isSurrogate && !isEscapedByte c then
      some (.surrogates c position (position + 1 + (t.takeWhile (·.isSurrogate)).length))
    else strayFrom? t (position + 1)

/-- What keeps a path from being looked up. -/
def nameError? (p : Path) : Option NameError :=
  match strayFrom? p.text 0 with
  | some e => some e
  | none => if p.text.any (·.val == 0) then some .nul else none

end Path

end PartRelay
