import PartRelay.Text.Basic

/-!
# Letter case

Case maps for comparisons with words of ASCII letters. Of the letters outside ASCII only those whose
image holds a letter of ASCII are mapped; any other keeps its place as it is, and so differs from
every ASCII letter before and after.
-/

namespace PartRelay

namespace CodePoint

/-- The capital of an ASCII letter. -/
def asciiUpper (c : CodePoint) : CodePoint :=
  if c.between 0x61 0x7A then ofNat (c.val - 0x20) else c

/-- The letters outside ASCII that have ASCII letters in their capitals. -/
def foreignCapitals : List (Nat × Text) :=
  [(0xDF, "SS"), (0x131, "I"), (0x149, "\u02BCN"), (0x17F, "S"), (0x1F0, "J\u030C"),
   (0x1E96, "H\u0331"), (0x1E97, "T\u0308"), (0x1E98, "W\u030A"), (0x1E99, "Y\u030A"),
   (0x1E9A, "A\u02BE"), (0xFB00, "FF"), (0xFB01, "FI"), (0xFB02, "FL"), (0xFB03, "FFI"),
   (0xFB04, "FFL"), (0xFB05, "ST"), (0xFB06, "ST")]

/-- The capitals of a letter: `ſ` becomes `S`, `ﬆ` becomes `ST`. -/
def upper (c : CodePoint) : Text :=
  if c.isAscii then [c.asciiUpper] else (foreignCapitals.lookup c.val).getD [c]

/-- The small letter of an ASCII letter, and `k` for the Kelvin sign. -/
def lower (c : CodePoint) : CodePoint :=
  if c.between 0x41 0x5A then ofNat (c.val + 0x20)
  else if c.val = 0x212A then ofChar 'k'
  else c

end CodePoint

namespace Text

def upper (t : Text) : Text := t.flatMap CodePoint.upper

def lower (t : Text) : Text := t.map CodePoint.lower

end Text

end PartRelay
