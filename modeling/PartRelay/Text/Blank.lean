import PartRelay.Text.Basic

/-!
# Blank code points

Two classes of blanks. The wide one is white space as Unicode has it together with the four
information separators; the narrow one is the six blanks of ASCII that may stand around a number.
-/

namespace PartRelay

namespace CodePoint

/-- White space in the wide sense. -/
def isBlank (c : CodePoint) : Bool :=
  c.between 0x09 0x0D || c.between 0x1C 0x20 || c.val == 0x85 || c.val == 0xA0 || c.val == 0x1680 ||
  c.between 0x2000 0x200A || c.between 0x2028 0x2029 || c.val == 0x202F || c.val == 0x205F ||
  c.val == 0x3000

/-- Space, tab, line feed, vertical tab, form feed and carriage return. -/
def isAsciiBlank (c : CodePoint) : Bool := c.between 0x09 0x0D || c.val == 0x20

end CodePoint

namespace Text

/-- The text without white space at its ends. -/
def strip (t : Text) : Text := t.trim CodePoint.isBlank

/-- The text without any white space, also inside. -/
def withoutBlanks (t : Text) : Text := t.filter (!·.isBlank)

end Text

end PartRelay
