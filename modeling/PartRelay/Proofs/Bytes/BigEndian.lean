import PartRelay.Bytes.Basic

/-!
# Big-endian numbers read back

A number is read from its bytes when they are wide enough to hold it, also where they stand as a
field among others.
-/

namespace PartRelay.Bytes

/-! ## Numbers and their bytes -/

@[simp] theorem toNat_append_single (bs : Bytes) (b : UInt8) :
    toNat (bs ++ [b]) = toNat bs * 256 + b.toNat := by
  rw [toNat, List.foldl_append]
  rfl

theorem toNat_lt (bs : Bytes) : toNat bs < Nat.pow 256 bs.length := by
  -- Numbers grow at the end, so that the induction takes the last byte away.
  rw [← List.reverse_reverse bs]
  induction bs.reverse with
  | nil => exact Nat.one_pos
  | cons b bs ih =>
    rw [List.reverse_cons, toNat_append_single, List.length_append, List.length_singleton]
    show _ < Nat.pow 256 bs.reverse.length * 256
    have single := b.toNat_lt
    omega

theorem toNat_ofNat {width n : Nat} (h : n < Nat.pow 256 width) : toNat (ofNat width n) = n := by
  induction width generalizing n with
  | zero => exact (Nat.lt_one_iff.mp h).symm
  | succ width ih =>
    have wider : n < Nat.pow 256 width * 256 := h
    rw [ofNat, toNat_append_single, ih (by omega), UInt8.toNat_ofNat']
    omega

theorem ofNat_injective {width m n : Nat} (hm : m < Nat.pow 256 width) (hn : n < Nat.pow 256 width)
    (h : ofNat width m = ofNat width n) : m = n := by
  rw [← toNat_ofNat hm, h, toNat_ofNat hn]

/-- Bytes are those of the number that they write. -/
theorem ofNat_toNat (bs : Bytes) : ofNat bs.length (toNat bs) = bs := by
  rw [← List.reverse_reverse bs]
  induction bs.reverse with
  | nil => rfl
  | cons b bs ih =>
    have single := b.toNat_lt
    have last : UInt8.ofNat (toNat bs.reverse * 256 + b.toNat) = b := by
      apply UInt8.toNat_inj.mp
      rw [UInt8.toNat_ofNat']
      omega
    have before : (toNat bs.reverse * 256 + b.toNat) / 256 = toNat bs.reverse := by omega
    rw [List.reverse_cons, toNat_append_single, List.length_append, List.length_singleton, ofNat,
      last, before, ih]

/-! ## Fields -/

theorem field_lt (bs : Bytes) (offset width : Nat) :
    bs.field offset width < Nat.pow 256 width := by
  have number := toNat_lt ((bs.drop offset).take width)
  have length : ((bs.drop offset).take width).length ≤ width := by
    rw [List.length_take]
    omega
  exact Nat.lt_of_lt_of_le number (Nat.pow_le_pow_right (by omega) length)

/-- A field is the number that stands there. -/
theorem field_append (front : Bytes) {back : Bytes} {offset width n : Nat}
    (ho : front.length = offset) (h : n < Nat.pow 256 width) :
    field (front ++ (ofNat width n ++ back)) offset width = n := by
  rw [field, List.drop_left' ho, List.take_left' (length_ofNat width n), toNat_ofNat h]

/-- What starts with a field is the bytes of its number and what follows them. -/
theorem drop_eq_field_append (bs : Bytes) (offset width : Nat)
    (within : offset + width ≤ bs.length) :
    bs.drop offset = ofNat width (bs.field offset width) ++ bs.drop (offset + width) := by
  have length : ((bs.drop offset).take width).length = width := by
    rw [List.length_take, List.length_drop]
    omega
  have bytes : ofNat width (bs.field offset width) = (bs.drop offset).take width := by
    have back := ofNat_toNat ((bs.drop offset).take width)
    rwa [length] at back
  rw [bytes, ← List.drop_drop, List.take_append_drop]

end PartRelay.Bytes
