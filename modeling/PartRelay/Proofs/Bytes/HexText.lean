import PartRelay.Bytes.Hex

/-!
# Hexadecimal text

Bytes are read from the digits that they are written as, so different bytes have different digits.
What is read at all are pairs of digits: `read_eq_ok_iff`.
-/

namespace PartRelay

namespace CodePoint

theorem hexValue?_hexDigit {n : Nat} (h : n < 16) : (hexDigit n).hexValue? = some n := by
  have all : ∀ n < 16, (hexDigit n).hexValue? = some n := by decide
  exact all n h

theorem printable_hexDigit {n : Nat} (h : n < 16) :
    0x20 ≤ (hexDigit n).val ∧ (hexDigit n).val ≤ 0x7E := by
  have all : ∀ n < 16, 0x20 ≤ (hexDigit n).val ∧ (hexDigit n).val ≤ 0x7E := by decide
  exact all n h

end CodePoint

namespace Hex

/-! ## Reading what was written -/

theorem writeByte_eq (b : UInt8) : writeByte b =
    [CodePoint.hexDigit (b.toNat / 16 % 16), CodePoint.hexDigit (b.toNat % 16)] := rfl

theorem readPairs?_write (bs done : Bytes) :
    readPairs? (write bs) done = some (done.reverse ++ bs) := by
  induction bs generalizing done with
  | nil => simp [write, readPairs?]
  | cons b bs ih =>
    have byte : UInt8.ofNat (b.toNat / 16 % 16 * 16 + b.toNat % 16) = b := by
      have halves : b.toNat / 16 % 16 * 16 + b.toNat % 16 = b.toNat := by
        have bound := b.toNat_lt
        omega
      rw [halves, UInt8.ofNat_toNat]
    show readPairs? (writeByte b ++ write bs) done = _
    rw [writeByte_eq]
    show readPairs? (_ :: _ :: write bs) done = _
    rw [readPairs?, CodePoint.hexValue?_hexDigit (Nat.mod_lt _ (by decide)),
      CodePoint.hexValue?_hexDigit (Nat.mod_lt _ (by decide))]
    simp only [byte, ih, List.reverse_cons, List.append_assoc, List.singleton_append]

theorem write_injective {bs bs' : Bytes} (h : write bs = write bs') : bs = bs' := by
  have read := readPairs?_write bs []
  rw [h, readPairs?_write] at read
  exact (Option.some.inj read).symm

/-! ## What is read -/

/-- The digits, in either case. -/
def digits : Text := "0123456789abcdefABCDEF"

theorem exists_hexValue?_iff {c : CodePoint} : (∃ v, c.hexValue? = some v) ↔ c ∈ digits := by
  have ranges : (∃ v, c.hexValue? = some v) ↔ 0x30 ≤ c.val ∧ c.val ≤ 0x39 ∨
      0x61 ≤ c.val ∧ c.val ≤ 0x66 ∨ 0x41 ≤ c.val ∧ c.val ≤ 0x46 := by
    simp only [CodePoint.hexValue?, CodePoint.isDigit, CodePoint.between, Bool.and_eq_true,
      decide_eq_true_eq]
    split
    next digit => simp [digit]
    next =>
      split
      next small => simp [small]
      next => split <;> simp_all
  rw [ranges]
  simp [digits, Text.ofString, CodePoint.ext_iff]
  omega

/-- The text is pairs of digits, the high one first, and these are their bytes. -/
inductive Spells : Text → Bytes → Prop where
  | nil : Spells [] []
  | pair {high low : CodePoint} {h l : Nat} {t : Text} {bs : Bytes}
      (first : high.hexValue? = some h) (second : low.hexValue? = some l) (rest : Spells t bs) :
      Spells (high :: low :: t) (UInt8.ofNat (h * 16 + l) :: bs)

variable {t : Text} {bs : Bytes}

theorem Spells.length_eq (h : Spells t bs) : t.length = 2 * bs.length := by
  induction h with
  | nil => rfl
  | pair first second rest ih =>
    rw [List.length_cons, List.length_cons, List.length_cons, ih]
    omega

theorem Spells.mem_digits (h : Spells t bs) : ∀ c ∈ t, c ∈ digits := by
  induction h with
  | nil => exact List.forall_mem_nil _
  | pair first second rest ih =>
    exact List.forall_mem_cons.mpr ⟨exists_hexValue?_iff.mp ⟨_, first⟩,
      List.forall_mem_cons.mpr ⟨exists_hexValue?_iff.mp ⟨_, second⟩, ih⟩⟩

theorem exists_spells : (t : Text) → (∀ c ∈ t, c ∈ digits) → t.length % 2 = 0 → ∃ bs, Spells t bs
  | [], _, _ => ⟨[], .nil⟩
  | [_], _, even => by cases even
  | high :: low :: t, hex, even => by
    rw [List.forall_mem_cons, List.forall_mem_cons] at hex
    obtain ⟨_, first⟩ := exists_hexValue?_iff.mpr hex.1
    obtain ⟨_, second⟩ := exists_hexValue?_iff.mpr hex.2.1
    rw [List.length_cons, List.length_cons] at even
    obtain ⟨_, rest⟩ := exists_spells t hex.2.2 (by omega)
    exact ⟨_, .pair first second rest⟩

theorem readPairs?_eq_some_iff {done : Bytes} :
    readPairs? t done = some bs ↔ ∃ out, Spells t out ∧ bs = done.reverse ++ out := by
  constructor
  · intro h
    fun_induction readPairs? t done with
    | case1 done =>
      cases h
      exact ⟨[], .nil, (List.append_nil _).symm⟩
    | case2 => cases h
    | case3 high low t done h' l second first ih =>
      obtain ⟨out, spells, rfl⟩ := ih h
      exact ⟨_, .pair first second spells, by simp⟩
    | case4 => cases h
  · rintro ⟨out, spells, rfl⟩
    induction spells generalizing done with
    | nil => simp [readPairs?]
    | pair first second rest ih =>
      simp only [readPairs?, first, second, ih, List.reverse_cons, List.append_assoc,
        List.singleton_append]

theorem spells_iff : Spells t bs ↔ readPairs? t [] = some bs := by
  simp [readPairs?_eq_some_iff]

theorem isAscii_of_mem_digits {c : CodePoint} (h : c ∈ digits) : c.isAscii = true := by
  have all : ∀ d ∈ digits, d.isAscii = true := by decide
  exact all c h

/-- Text is read as the bytes that its pairs of digits spell. -/
theorem read_eq_ok_iff : read t = .ok bs ↔ Spells t bs := by
  constructor
  · intro h
    rw [read] at h
    split at h
    · cases h
    split at h
    · cases h
    split at h
    · cases h
      exact spells_iff.mpr ‹_›
    · cases h
  · intro h
    have ascii : t.all CodePoint.isAscii = true :=
      List.all_eq_true.mpr fun c hc => isAscii_of_mem_digits (h.mem_digits c hc)
    have even : ¬ t.length % 2 = 1 := by
      rw [h.length_eq]
      omega
    rw [read, ascii, if_neg (by decide), if_neg even, spells_iff.mp h]

end Hex

end PartRelay
