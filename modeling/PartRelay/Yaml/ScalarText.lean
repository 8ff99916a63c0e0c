import PartRelay.Yaml.Error
import PartRelay.Yaml.Spot

/-!
# How scalars are written

Scalars without quotes, which end where something else can start, and scalars in single or double
quotes. Both can go over several lines.
-/

namespace PartRelay.Yaml

/-! ## Line ends inside scalars -/

/-- A line end as it counts in a scalar. -/
def breakText (c : CodePoint) : CodePoint :=
  if c.val = 0x2028 ∨ c.val = 0x2029 then c else '\n'

/-- A stretch of line ends and what follows it. -/
structure Gap where
  breaks : Text
  rest : Spots

/-- The line ends at the start of the spots and the blanks among them, behind the line ends `done`,
which come last first. -/
def takeBreaks (blank : CodePoint → Bool) : Spots → (done : Text) → Gap
  | [], done => ⟨done.reverse, []⟩
  | s :: rest, done =>
    if s.point = '\r' && Spots.point rest = '\n' then takeBreaks blank rest done
    else if isBreak s.point then takeBreaks blank rest (breakText s.point :: done)
    else if blank s.point then takeBreaks blank rest done
    else ⟨done.reverse, s :: rest⟩

/-- What line ends stand for: one is a space, of more the first is left out. -/
def foldBreaks : Text → Text
  | [] => []
  | [c] => if c = '\n' then [CodePoint.ofChar ' '] else [c]
  | c :: breaks => if c = '\n' then breaks else c :: breaks

/-! ## Plain scalars -/

/-- Whether a plain scalar may start here, inside brackets or outside. -/
def startsPlain (flow : Bool) (s : Spots) : Bool :=
  let c := Spots.point s
  let goesOn := !s.standsAlone
  if c = '-' then goesOn
  else if c = '?' || c = ':' then !flow && goesOn
  else !(isGap c || isFlowMark c || c = '#' || c = '&' || c = '*' || c = '!' || c = '|' ||
    c = '>' || c = '\'' || c = '"' || c = '%' || c = '@' || c = '`')

/-- Whether a word of a plain scalar ends at a code point, for the one behind it. -/
def endsWord (flow : Bool) (c next : CodePoint) : Bool :=
  isGap c || (c = ':' && (isGap next || (flow && isFlowMark next))) ||
  (flow && (isFlowMark c || c = '?'))

/-- The word at the start of the spots, last first behind `done`, and what follows. -/
def takeWord (flow : Bool) : Spots → (done : Text) → Text × Spots
  | [], done => (done, [])
  | s :: rest, done =>
    if endsWord flow s.point (Spots.point rest) then (done, s :: rest)
    else takeWord flow rest (s.point :: done)

/-- A plain scalar as far as it has been read. -/
structure Plain where
  /-- Its text, last first. -/
  reversed : Text
  /-- Whether the next thing stands on a new line. -/
  newLine : Bool := false
  rest : Spots

/-- Takes the words behind those of a plain scalar. On a new line they have to stand in column
`least` at least, unless inside brackets, and no document may start or end there. -/
def Plain.extend (flow : Bool) (least : Nat) : (fuel : Nat) → Plain → Plain
  | 0, p => p
  | fuel + 1, p =>
    let spaces := (p.rest.takeWhile fun s => isSpace s.point).map (·.point)
    let after : Spots := p.rest.dropWhile fun s => isSpace s.point
    let crosses := isBreak after.point
    if !crosses && spaces.isEmpty then p
    else
      let gap : Gap := if crosses then takeBreaks isSpace after [] else ⟨[], after⟩
      let stopped : Plain := { p with newLine := crosses, rest := gap.rest }
      if (crosses && gap.rest.isDocumentMark) || gap.rest.point = '#' ||
          (!flow && gap.rest.column < least) then stopped
      else match takeWord flow gap.rest [] with
        | ([], _) => stopped
        | (word, rest) =>
          let between := if crosses then foldBreaks gap.breaks else spaces
          Plain.extend flow least fuel
            { reversed := word ++ between.reverse ++ p.reversed, rest }

/-- A plain scalar from its start on; it has at most `size` words. -/
def readPlain (flow : Bool) (least size : Nat) (s : Spots) : Plain :=
  let (word, rest) := takeWord flow s []
  Plain.extend flow least size { reversed := word, rest }

/-! ## Quoted scalars -/

/-- What an escape of one letter stands for. -/
def shortEscapes : List (Char × Nat) :=
  [('0', 0), ('a', 0x07), ('b', 0x08), ('t', 0x09), ('\t', 0x09), ('n', 0x0A), ('v', 0x0B),
   ('f', 0x0C), ('r', 0x0D), ('e', 0x1B), (' ', 0x20), ('"', 0x22), ('\\', 0x5C), ('/', 0x2F),
   ('N', 0x85), ('_', 0xA0), ('L', 0x2028), ('P', 0x2029)]

/-- How many digits follow the letter of a numeric escape. -/
def escapeWidth? (c : CodePoint) : Option Nat :=
  if c = 'x' then some 2 else if c = 'u' then some 4 else if c = 'U' then some 8 else none

/-- The value of hexadecimal digits. -/
def hexOf (digits : Text) : Nat :=
  digits.foldl (fun n c => n * 16 + c.hexValue?.getD 0) 0

/-- The code point of a number that an escape gives. -/
def escapedPoint (n : Nat) : Except ReadError CodePoint :=
  if 0x80000000 ≤ n then .error .codePointOverflow
  else if 0x110000 ≤ n then .error .codePoint
  else .ok (.ofNat n)

/-- An escape behind its backslash and what follows it. -/
def readEscape (s : Spots) : Except ReadError (CodePoint × Spots) :=
  let c := s.point
  match shortEscapes.find? (fun entry => CodePoint.ofChar entry.1 == c), escapeWidth? c with
  | some entry, _ => .ok (.ofNat entry.2, s.drop 1)
  | none, some width =>
    let digits := ((s.drop 1).take width).map (·.point)
    if digits.length < width || !digits.all (·.hexValue?.isSome) then .error .malformed
    else (escapedPoint (hexOf digits)).map fun point => (point, s.drop (1 + width))
  | none, none => .error .malformed

/-- Reads a quoted scalar from behind its opening quote. Blanks around line ends do not count, and
no document may start or end inside. `done` comes last first. -/
def readQuoted (double : Bool) :
    (fuel : Nat) → Spots → (done : Text) → Except ReadError (Text × Spots)
  | 0, _, _ => .error .malformed
  | fuel + 1, s, done =>
    let blanks := (s.takeWhile fun s => isSpaceOrTab s.point).map (·.point)
    let s : Spots := s.dropWhile fun s => isSpaceOrTab s.point
    let c := s.point
    if c = endPoint then .error .malformed
    else if isBreak c then
      let gap := takeBreaks isSpaceOrTab s []
      if gap.rest.isDocumentMark then .error .malformed
      else readQuoted double fuel gap.rest ((foldBreaks gap.breaks).reverse ++ done)
    else
      let done := blanks.reverse ++ done
      let rest : Spots := s.drop 1
      if double && c = '\\' then
        if isBreak rest.point then
          let gap := takeBreaks isSpaceOrTab rest []
          if gap.rest.isDocumentMark then .error .malformed
          else readQuoted double fuel gap.rest ((gap.breaks.drop 1).reverse ++ done)
        else match readEscape rest with
          | .error e => .error e
          | .ok (point, rest) => readQuoted double fuel rest (point :: done)
      else if double && c = '"' then .ok (done.reverse, rest)
      else if !double && c = '\'' then
        if rest.point = '\'' then readQuoted double fuel (rest.drop 1) (c :: done)
        else .ok (done.reverse, rest)
      else readQuoted double fuel rest (c :: done)

end PartRelay.Yaml
