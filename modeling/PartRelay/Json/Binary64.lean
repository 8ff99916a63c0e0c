import PartRelay.Text.Basic

/-!
# Binary floating point

The numbers of a 64-bit binary format with 53 bits of precision, as exact values: a mantissa times a
power of two. A decimal is rounded to the nearest of them, a tie to the even mantissa; a number is
written with the fewest digits that read back.
-/

namespace PartRelay

inductive Binary64 where
  | nan
  | infinite (negative : Bool)
  /-- The number `± mantissa * 2 ^ exponent`. -/
  | finite (negative : Bool) (mantissa : Nat) (exponent : Int)
  deriving DecidableEq

namespace Binary64

/-! ## Powers -/

def twoTo (n : Nat) : Nat := Nat.pow 2 n

def tenTo (n : Nat) : Nat := Nat.pow 10 n

/-! ## Rounding -/

/-- The exponent of the smallest numbers. -/
def minExponent : Int := -1074

/-- The exponent of the greatest numbers. -/
def maxExponent : Int := 971

/-- `num / den` to the nearest whole number, a tie to the even one. -/
def roundRatio (num den : Nat) : Nat :=
  let q := num / den
  let twice := 2 * (num % den)
  if twice < den then q
  else if twice > den then q + 1
  else if q % 2 = 0 then q
  else q + 1

/-- The power of two in a ratio: the greatest `k` with `2 ^ k * den ≤ num`. -/
def log2Ratio (num den : Nat) : Int :=
  let k : Int := (Nat.log2 num : Int) - Nat.log2 den
  if num * twoTo (-k).toNat < den * twoTo k.toNat then k - 1 else k

/-- The number nearest to `num / den`, which is not zero. -/
def ofRatio (negative : Bool) (num den : Nat) : Binary64 :=
  let exponent := max minExponent (log2Ratio num den - 52)
  let mantissa := roundRatio (num * twoTo (-exponent).toNat) (den * twoTo exponent.toNat)
  let (mantissa, exponent) :=
    if mantissa = twoTo 53 then (twoTo 52, exponent + 1) else (mantissa, exponent)
  if exponent > maxExponent then .infinite negative else .finite negative mantissa exponent

/-- The number nearest to `digits * 10 ^ scale`. A power of ten is at least three powers of two up,
or down where it is negative, which tells what lies outside of the format without computing it. -/
def ofDecimal (negative : Bool) (digits : Nat) (scale : Int) : Binary64 :=
  let power : Int := Nat.log2 digits + 3 * scale
  if digits = 0 ∨ power < -1100 then .finite negative 0 minExponent
  else if scale ≥ 0 ∧ power > 1100 then .infinite negative
  else ofRatio negative (digits * tenTo scale.toNat) (tenTo (-scale).toNat)

/-! ## Arithmetic -/

/-- The number nearest to `± n * 2 ^ exponent`; zero keeps the sign. -/
def ofScaled (negative : Bool) (n : Nat) (exponent : Int) : Binary64 :=
  if n = 0 then .finite negative 0 minExponent
  else ofRatio negative (n * twoTo exponent.toNat) (twoTo (-exponent).toNat)

/-- The sum, rounded. -/
def add (x y : Binary64) : Binary64 :=
  match x, y with
  | .finite xNegative xMantissa xExponent, .finite yNegative yMantissa yExponent =>
    let low := min xExponent yExponent
    let signed (negative : Bool) (mantissa : Nat) (exponent : Int) : Int :=
      let n : Int := (mantissa * twoTo (exponent - low).toNat : Nat)
      if negative then -n else n
    let sum := signed xNegative xMantissa xExponent + signed yNegative yMantissa yExponent
    ofScaled (if sum = 0 then xNegative && yNegative else sum < 0) sum.natAbs low
  | .finite .., y => y
  | x, .finite .. => x
  | x, y => if x = y then x else .nan

/-- The product with a whole number, which is rounded first. -/
def scale (x : Binary64) (factor : Nat) : Binary64 :=
  match x, ofScaled false factor 0 with
  | .finite negative mantissa exponent, .finite _ factor shift =>
    ofScaled negative (mantissa * factor) (exponent + shift)
  | .finite negative _ _, .infinite _ => .infinite negative
  | x, _ => x

/-- The number, or the number of the other sign. -/
def withSign (x : Binary64) (flip : Bool) : Binary64 :=
  match x with
  | .nan => .nan
  | .infinite negative => .infinite (negative != flip)
  | .finite negative mantissa exponent => .finite (negative != flip) mantissa exponent

/-! ## Comparison with integers -/

/-- The integer part, toward zero. -/
def truncate (negative : Bool) (mantissa : Nat) (exponent : Int) : Int :=
  let n : Int := (mantissa * twoTo exponent.toNat / twoTo (-exponent).toNat : Nat)
  if negative then -n else n

/-- Whether the number is the integer `n`. -/
def isInt (x : Binary64) (n : Int) : Bool :=
  match x with
  | .finite negative mantissa exponent =>
    truncate negative mantissa exponent == n &&
      mantissa * twoTo exponent.toNat % twoTo (-exponent).toNat == 0
  | _ => false

/-- The integer that the number is. -/
def whole? (x : Binary64) : Option Int :=
  match x with
  | .finite negative mantissa exponent =>
    let n := truncate negative mantissa exponent
    if x.isInt n then some n else none
  | _ => none

/-- Whether the number is at most the integer `n`. -/
def leInt (x : Binary64) (n : Int) : Bool :=
  match x with
  | .nan => false
  | .infinite negative => negative
  | .finite negative mantissa exponent =>
    let m : Int := if negative then -mantissa else mantissa
    m * twoTo exponent.toNat ≤ n * twoTo (-exponent).toNat

/-! ## Shortest digits -/

/-- The numbers that round to one of the format, as whole multiples of `1 / den`. -/
structure Interval where
  low : Nat
  value : Nat
  high : Nat
  den : Nat
  /-- Whether the ends round to the number as well. -/
  closed : Bool

/-- The numbers that round to `mantissa * 2 ^ exponent`. At a power of two the gap below is half the
gap above. -/
def interval (mantissa : Nat) (exponent : Int) : Interval :=
  let unit := twoTo (exponent - 2).toNat
  let below := if mantissa = twoTo 52 ∧ exponent > minExponent then 1 else 2
  { low := (4 * mantissa - below) * unit
    value := 4 * mantissa * unit
    high := (4 * mantissa + 2) * unit
    den := twoTo (2 - exponent).toNat
    closed := mantissa % 2 = 0 }

/-- Whether `n / scale` lies in the interval. -/
def Interval.holds (i : Interval) (n scale : Nat) : Bool :=
  if i.closed then i.low * scale ≤ n * i.den && n * i.den ≤ i.high * scale
  else i.low * scale < n * i.den && n * i.den < i.high * scale

/-- Digits and the power of ten that they are multiplied with. -/
structure Decimal where
  digits : Nat
  scale : Int

/-- The multiple of `10 ^ scale` in the interval that is nearest to the value, if one of the value's
two neighbours lies in it. -/
def Interval.decimalAt? (i : Interval) (scale : Int) : Option Decimal :=
  let up := tenTo scale.toNat
  let down := tenTo (-scale).toNat
  let below := i.value * down / (i.den * up)
  let above := below + 1
  match i.holds (below * up) down, i.holds (above * up) down with
  | false, false => none
  | true, false => some ⟨below, scale⟩
  | false, true => some ⟨above, scale⟩
  | true, true =>
    let toBelow := i.value * down - below * up * i.den
    let toAbove := above * up * i.den - i.value * down
    if toBelow < toAbove then some ⟨below, scale⟩
    else if toAbove < toBelow then some ⟨above, scale⟩
    else some ⟨below + below % 2, scale⟩

/-- The power of ten of the leading digit, or the next one: a power of two that the value is below,
times the logarithm of two. -/
def Interval.magnitude (i : Interval) : Int := (log2Ratio i.value i.den + 1) * 30103 / 100000

/-- Trailing zeros moved into the power of ten. -/
def Decimal.normalize : (limit : Nat) → Decimal → Decimal
  | 0, d => d
  | limit + 1, d =>
    if d.digits ≠ 0 ∧ d.digits % 10 = 0 then normalize limit ⟨d.digits / 10, d.scale + 1⟩ else d

/-- The shortest decimal in the interval; 17 digits always reach it. The grid that is tried first
may be too coarse to have a point there but a power of ten, which the next one has as well. -/
def Interval.shortest (i : Interval) : Decimal :=
  let top := i.magnitude
  let found := (List.range 18).findSome? fun (n : Nat) => i.decimalAt? (top - n)
  Decimal.normalize 20 (found.getD ⟨0, 0⟩)

/-! ## Writing -/

/-- A digit string with its point behind the first `whole` digits. -/
def positional (digits : Text) (whole : Int) : Text :=
  let zeros (n : Int) : Text := List.replicate n.toNat (CodePoint.ofChar '0')
  if whole ≤ 0 then "0." ++ zeros (-whole) ++ digits
  else if digits.length ≤ whole then digits ++ zeros (whole - digits.length) ++ ".0"
  else digits.take whole.toNat ++ CodePoint.ofChar '.' :: digits.drop whole.toNat

/-- A digit string as one digit, a fraction and a power of ten of two digits or more. -/
def scientific (digits : Text) (power : Int) : Text :=
  let fraction := digits.drop 1
  let size := Text.ofNat power.natAbs
  digits.take 1 ++ (if fraction.isEmpty then [] else CodePoint.ofChar '.' :: fraction) ++
    (if power < 0 then "e-" else "e+" : Text) ++ (if size.length < 2 then "0" ++ size else size)

/-- The fewest digits that read back, positional from `0.0001` on and below `10 ^ 16`. -/
def text : Binary64 → Text
  | .nan => "nan"
  | .infinite negative => if negative then "-inf" else "inf"
  | .finite negative mantissa exponent =>
    let body : Text :=
      if mantissa = 0 then "0.0"
      else
        let d := (interval mantissa exponent).shortest
        let digits := Text.ofNat d.digits
        let whole := digits.length + d.scale
        if -4 < whole ∧ whole ≤ 16 then positional digits whole
        else scientific digits (whole - 1)
    if negative then CodePoint.ofChar '-' :: body else body

end Binary64

end PartRelay
