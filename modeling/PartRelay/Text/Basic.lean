/-!
# Text

Text as the relay receives it: a list of code points. Surrogates are code points here, because an
escape such as `\ud800` in a JSON document puts one alone into a field, and it has to come out of
the relay again as it went in.
-/

namespace PartRelay

/-- A code point is a number below `0x110000`; the surrogates are among them. -/
@[ext] structure CodePoint where
  val : Nat
  isLt : val < 0x110000
  deriving DecidableEq

namespace CodePoint

def ofChar (c : Char) : CodePoint :=
  ⟨c.toNat, by
    have h : c.toNat.isValidChar := c.valid
    simp only [Nat.isValidChar] at h
    omega⟩

instance : Coe Char CodePoint := ⟨ofChar⟩

/-- The code point with the given number, the replacement character when there is none. -/
def ofNat (n : Nat) : CodePoint :=
  if h : n < 0x110000 then ⟨n, h⟩ else ofChar '\uFFFD'

theorem ofNat_val (c : CodePoint) : ofNat c.val = c := by
  simp [ofNat, c.isLt]

@[simp] theorem val_ofNat {n : Nat} (h : n < 0x110000) : (ofNat n).val = n := by
  simp [ofNat, h]

@[simp] theorem val_ofChar (c : Char) : (ofChar c).val = c.toNat := rfl

@[simp] theorem ofChar_inj {c d : Char} : ofChar c = ofChar d ↔ c = d := by
  constructor
  · intro h
    exact Char.toNat_inj.mp (congrArg val h)
  · intro h
    rw [h]

/-! ## Classes that need no table -/

/-- Whether the number of `c` lies between those of `lo` and `hi`, both included. -/
def between (lo hi : Nat) (c : CodePoint) : Bool := lo ≤ c.val && c.val ≤ hi

def isAscii (c : CodePoint) : Bool := c.val < 0x80

/-- The ten digits of ASCII. -/
def isDigit (c : CodePoint) : Bool := c.between 0x30 0x39

/-- The letters of ASCII. -/
def isLetter (c : CodePoint) : Bool := c.between 0x41 0x5A || c.between 0x61 0x7A

def isSurrogate (c : CodePoint) : Bool := c.between 0xD800 0xDFFF

/-- The value of a hexadecimal digit of either case. -/
def hexValue? (c : CodePoint) : Option Nat :=
  if c.isDigit then some (c.val - 0x30)
  else if c.between 0x61 0x66 then some (c.val - 0x61 + 10)
  else if c.between 0x41 0x46 then some (c.val - 0x41 + 10)
  else none

/-- The digit of a value below sixteen, in lower case. -/
def hexDigit (n : Nat) : CodePoint :=
  if n < 10 then ofNat (0x30 + n) else ofNat (0x61 + (n - 10))

end CodePoint

abbrev Text := List CodePoint

namespace Text

def ofString (s : String) : Text := s.toList.map CodePoint.ofChar

instance : Coe String Text := ⟨ofString⟩

/-- The pieces of a sentence, put together. -/
def join (pieces : List Text) : Text := pieces.flatten

/-! ## Numbers -/

/-- Decimal digits, without leading zeros. -/
def ofNat (n : Nat) : Text := (Nat.toDigits 10 n).map CodePoint.ofChar

/-- Decimal digits behind a minus sign where the number is negative. -/
def ofInt (n : Int) : Text :=
  if n < 0 then CodePoint.ofChar '-' :: ofNat n.natAbs else ofNat n.natAbs

/-- The last `width` hexadecimal digits of a number. -/
def ofHex : Nat → Nat → Text
  | 0, _ => []
  | width + 1, n => ofHex width (n / 16) ++ [CodePoint.hexDigit (n % 16)]

/-! ## Order and cuts -/

/-- Whether `s` is not after `t` in the order of their code points. -/
def le : Text → Text → Bool
  | [], _ => true
  | _ :: _, [] => false
  | c :: s, d :: t => c.val < d.val || (c == d && le s t)

/-- What follows `head` in a text that starts with it. -/
def dropPrefix? : Text → Text → Option Text
  | t, [] => some t
  | [], _ :: _ => none
  | c :: t, d :: head => if c = d then dropPrefix? t head else none

/-- Whether the text starts with `head`. -/
def startsWith (t head : Text) : Bool := (dropPrefix? t head).isSome

/-- The fields between the separators, at least one. -/
def splitOn (sep : CodePoint) (t : Text) : List Text :=
  t.foldr (fun c fields =>
    if c = sep then [] :: fields
    else match fields with
      | [] => [[c]]
      | f :: rest => (c :: f) :: rest) [[]]

/-- What stands before and after the first separator. -/
def cutFirst? (sep : CodePoint) (t : Text) : Option (Text × Text) :=
  match t.dropWhile (· != sep) with
  | [] => none
  | _ :: after => some (t.takeWhile (· != sep), after)

/-- What stands before and after the last separator. -/
def cutLast? (sep : CodePoint) (t : Text) : Option (Text × Text) :=
  match cutFirst? sep t.reverse with
  | none => none
  | some (after, before) => some (before.reverse, after.reverse)

/-- The text without the code points of a class at its start and at its end. -/
def trim (drop : CodePoint → Bool) (t : Text) : Text :=
  ((t.dropWhile drop).reverse.dropWhile drop).reverse

/-- The pieces with a separator between each two. -/
def intercalate (sep : Text) (pieces : List Text) : Text := (pieces.intersperse sep).flatten

end Text

end PartRelay
