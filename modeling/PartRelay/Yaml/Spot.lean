import PartRelay.Text.Basic

/-!
# Spots

A text as a list of code points with their places, which layout and keys depend on. A last spot
marks the end; its code point stands in no document.
-/

namespace PartRelay.Yaml

/-! ## Characters -/

/-- Ends of lines. -/
def isBreak (c : CodePoint) : Bool :=
  c = '\n' || c = '\r' || c.val == 0x85 || c.val == 0x2028 || c.val == 0x2029

def isSpace (c : CodePoint) : Bool := c = ' '

def isSpaceOrTab (c : CodePoint) : Bool := c = ' ' || c = '\t'

/-- What marks the end of a text. -/
def endPoint : CodePoint := .ofNat 0

/-- A blank, the end of a line or the end of the text. -/
def isGap (c : CodePoint) : Bool := isSpaceOrTab c || isBreak c || c = endPoint

/-- Brackets and commas. -/
def isFlowMark (c : CodePoint) : Bool :=
  c = ',' || c = '[' || c = ']' || c = '{' || c = '}'

/-- The mark that a text may start with. It does not count as a column. -/
def byteOrderMark : CodePoint := .ofNat 0xFEFF

/-- What may stand in a document. -/
def isAllowed (c : CodePoint) : Bool :=
  c = '\t' || c = '\n' || c = '\r' || c.between 0x20 0x7E || c.val == 0x85 ||
  c.between 0xA0 0xD7FF || c.between 0xE000 0xFFFD || c.between 0x10000 0x10FFFF

/-! ## Places -/

/-- A code point with its place in the text. -/
structure Spot where
  point : CodePoint
  index : Nat
  line : Nat
  column : Nat

abbrev Spots := List Spot

namespace Spots

/-- The spots of a text that starts at a place. A carriage return and a line feed end one line. -/
def ofTextAt : Text → (index line column : Nat) → Spots
  | [], index, line, column => [⟨endPoint, index, line, column⟩]
  | c :: t, index, line, column =>
    let goesOn := c = '\r' && t.head? = some (CodePoint.ofChar '\n')
    ⟨c, index, line, column⟩ ::
      if isBreak c && !goesOn then ofTextAt t (index + 1) (line + 1) 0
      else ofTextAt t (index + 1) line (if c = byteOrderMark then column else column + 1)

/-- The spots of a text, a byte order mark at its start left out. -/
def ofText (t : Text) : Spots :=
  let spots := ofTextAt t 0 0 0
  if t.head? = some byteOrderMark then spots.drop 1 else spots

/-- The code point that the spots start with. -/
def point (s : Spots) : CodePoint := (s.head?.map (·.point)).getD endPoint

/-- The index of the first spot. -/
def index (s : Spots) : Nat := (s.head?.map (·.index)).getD 0

/-- The line of the first spot. -/
def line (s : Spots) : Nat := (s.head?.map (·.line)).getD 0

/-- The column of the first spot. -/
def column (s : Spots) : Nat := (s.head?.map (·.column)).getD 0

/-- Whether a gap follows the first spot. -/
def standsAlone (s : Spots) : Bool := isGap (point (s.drop 1))

/-- Whether a line starts with three marks and a gap behind them. -/
def isMark (mark : Text) (s : Spots) : Bool :=
  s.column = 0 && (s.take 3).map (·.point) = mark && isGap (point (s.drop 3))

/-- Whether a document starts or ends here. -/
def isDocumentMark (s : Spots) : Bool := s.isMark "---" || s.isMark "..."

end Spots

end PartRelay.Yaml
