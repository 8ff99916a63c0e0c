import PartRelay.Text.Printable

/-!
# Quoted text

Text between quotes, as messages show a name or a value. Single quotes are used unless the text
holds one and no double quote; what is not printable becomes the shortest of three escapes.
-/

namespace PartRelay.Text

/-- How one code point stands between the quotes `quote`. -/
def quotedPoint (quote c : CodePoint) : Text :=
  if c = '\\' || c = quote then ['\\', c]
  else if c = '\n' then "\\n"
  else if c = '\r' then "\\r"
  else if c = '\t' then "\\t"
  else if c.isPrintable then [c]
  else if c.val < 0x100 then "\\x" ++ ofHex 2 c.val
  else if c.val < 0x10000 then "\\u" ++ ofHex 4 c.val
  else "\\U" ++ ofHex 8 c.val

/-- The quote that stands around a text. -/
def quoteFor (t : Text) : CodePoint :=
  if t.contains (CodePoint.ofChar '\'') && !t.contains (CodePoint.ofChar '"') then '"' else '\''

def quoted (t : Text) : Text :=
  quoteFor t :: t.flatMap (quotedPoint (quoteFor t)) ++ [quoteFor t]

end PartRelay.Text
