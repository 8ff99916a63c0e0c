/-!
# Bytes

Byte strings and the big-endian numbers in them.
-/

namespace PartRelay

abbrev Bytes := List UInt8

namespace Bytes

/-! ## Big-endian numbers -/

/-- The last `width` bytes of a number, most significant first. -/
def ofNat : Nat → Nat → Bytes
  | 0, _ => []
  | width + 1, n => ofNat width (n / 256) ++ [UInt8.ofNat n]

/-- The number that the bytes write, most significant first. -/
def toNat (bs : Bytes) : Nat := bs.foldl (fun n b => n * 256 + b.toNat) 0

@[simp] theorem length_ofNat (width n : Nat) : (ofNat width n).length = width := by
  induction width generalizing n with
  | zero => rfl
  | succ width ih => simp [ofNat, ih]

/-- The number in the `width` bytes that start at `offset`. -/
def field (bs : Bytes) (offset width : Nat) : Nat := toNat ((bs.drop offset).take width)

/-! ## Cuts -/

/-- Pieces of `size` bytes, the last one perhaps shorter; at most `limit` of them. -/
def piecesUpTo (size : Nat) : (limit : Nat) → Bytes → List Bytes
  | 0, _ => []
  | _ + 1, [] => []
  | limit + 1, b :: bs => (b :: bs).take size :: piecesUpTo size limit ((b :: bs).drop size)

/-- Pieces of `size` bytes, the last one perhaps shorter. There are no more of them than bytes. -/
def pieces (size : Nat) (bs : Bytes) : List Bytes := piecesUpTo size bs.length bs

end Bytes

end PartRelay
