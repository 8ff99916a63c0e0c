import PartRelay.Bytes.Basic
import PartRelay.Text.Case

/-!
# Headers

Headers as they go over the wire, one line each, and as they are read back. An empty line ends
them; a line that starts with a blank goes on with the value before it; a line that is no header
ends the reading.
-/

namespace PartRelay.Http

/-- A name and a value. -/
abbrev Header := Text × Text

/-! ## Lines -/

def lineEnd : Text := "\r\n"

/-- Headers as lines, and the empty line behind them. -/
def writeHeaders (headers : List Header) : Text :=
  headers.flatMap (fun (name, value) => Text.join [name, ": ", value, lineEnd]) ++ lineEnd

/-- What stands before the first empty line and what follows it; `start` says that a line starts
here, and `done` comes last first. -/
def cutAtEmptyLine : Text → (start : Bool) → (done : Text) → Text × Text
  | [], _, done => (done.reverse, [])
  | c :: t, start, done =>
    if start && c = '\n' then (done.reverse, t)
    else if start && c = '\r' && t.head? = some (CodePoint.ofChar '\n') then
      (done.reverse, t.drop 1)
    else cutAtEmptyLine t (c = '\n') (c :: done)

/-- The lines of a text with their ends, behind the start `line` of one, which comes last first. A
carriage return ends a line, alone or together with a line feed. -/
def linesWithEnds : Text → (line : Text) → List Text
  | [], [] => []
  | [], line => [line.reverse]
  | c :: t, line =>
    if c = '\n' || (c = '\r' && t.head? ≠ some (CodePoint.ofChar '\n')) then
      (c :: line).reverse :: linesWithEnds t []
    else linesWithEnds t (c :: line)

/-! ## Limits -/

/-- The greatest length of a line, its end included. -/
def lineLimit : Nat := 0x10000

/-- The greatest number of lines, the empty one included. -/
def countLimit : Nat := 100

/-- Why headers are not read. -/
inductive HeadFault where
  | longLine
  | manyLines
  deriving DecidableEq

/-- What is met first that is over a limit, in the text before the empty line. Only a line feed ends
a line here. -/
def headFault? (head : Text) : Option HeadFault :=
  let lines := (head.splitOn '\n').dropLast
  if (lines.take (countLimit + 1)).any fun line => line.length + 1 > lineLimit then some .longLine
  else if lines.length + 1 > countLimit then some .manyLines
  else none

/-! ## Reading -/

def isMargin (c : CodePoint) : Bool := c = ' ' || c = '\t'

/-- What a name consists of: printable ASCII without blanks and colons. -/
def isNamePoint (c : CodePoint) : Bool := c.between 0x21 0x7E && !(c = ':')

/-- How the line of a mailbox starts that a message may have before its headers. -/
def envelopeStart : Text := "From "

/-- Whether a line belongs to the headers. -/
def isHeaderLine (line : Text) : Bool :=
  line.startsWith envelopeStart || line.head?.any isMargin ||
  (line.dropWhile isNamePoint).head? = some (CodePoint.ofChar ':')

/-- The header that is being read, without the line end behind it. -/
def finished (current : Option Header) : List Header :=
  current.toList.map fun (name, value) =>
    (name, (value.reverse.dropWhile fun (c : CodePoint) => c = '\r' || c = '\n').reverse)

/-- Reads lines of headers behind the one that is being read. A line without a name is left out, and
so is the line of a mailbox; as the last one it ends the reading. -/
def readLines : (first : Bool) → (current : Option Header) → List Text → List Header
  | _, current, [] => finished current
  | first, current, line :: lines =>
    if line.head?.any isMargin then
      readLines false (current.map fun (name, value) => (name, value ++ line)) lines
    else finished current ++
      if line.startsWith envelopeStart then
        if !first && lines.isEmpty then [] else readLines false none lines
      else match line.cutFirst? ':' with
        | none | some ([], _) => readLines false none lines
        | some (name, value) => readLines false (some (name, value.dropWhile isMargin)) lines

/-- Reads the headers at the start of a text. -/
def readHeaders (t : Text) : List Header :=
  readLines true none ((linesWithEnds t []).takeWhile isHeaderLine)

/-- The first header of a name, which may be written in any letter case. -/
def header? (headers : List Header) (name : Text) : Option Text :=
  (headers.find? fun entry => entry.1.lower = name).map Prod.snd

end PartRelay.Http
