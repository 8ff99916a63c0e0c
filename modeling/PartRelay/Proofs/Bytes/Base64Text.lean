import PartRelay.Bytes.Base64
import PartRelay.Proofs.Text.Ascii

/-!
# Base64 read back

Both readers give back what the writer wrote, behind whatever has been read before. What is written
is ASCII, and starts with a digit unless it is empty. Only ASCII is read, and strict text that is
not empty holds some bytes.
-/

namespace PartRelay.Base64

/-! ## Digits -/

theorem value?_digit {v : Nat} (h : v < 64) : value? (digit v) = some v := by
  have all : ∀ v < 64, value? (digit v) = some v := by decide
  exact all v h

theorem digit_ne_padding {v : Nat} (h : v < 64) : digit v ≠ CodePoint.ofChar '=' := by
  have all : ∀ v < 64, digit v ≠ CodePoint.ofChar '=' := by decide
  exact all v h

theorem isAscii_digit {v : Nat} (h : v < 64) : (digit v).isAscii = true := by
  have all : ∀ v < 64, (digit v).isAscii = true := by decide
  exact all v h

/-! ## One quad -/

/-- A digit before the last one of its quad is kept until the quad is full. -/
theorem readFrom_digit (strict : Bool) {v : Nat} (hv : v < 64) (t : Text) {quad : List Nat}
    (hq : quad.length < 3) (done : Bytes) :
    readFrom strict (digit v :: t) quad 0 false done =
      readFrom strict t (quad ++ [v]) 0 false done := by
  rw [readFrom, if_neg (digit_ne_padding hv), value?_digit hv]
  simp [hq]

/-- The last digit of a quad turns it into bytes. -/
theorem readFrom_lastDigit (strict : Bool) {v : Nat} (hv : v < 64) (t : Text) (x y z : Nat)
    (done : Bytes) :
    readFrom strict (digit v :: t) [x, y, z] 0 false done =
      readFrom strict t [] 0 false ((bytesOfQuad [x, y, z, v]).reverseAux done) := by
  rw [readFrom, if_neg (digit_ne_padding hv), value?_digit hv]
  simp

theorem readFrom_padding_two (strict : Bool) (x y : Nat) (done : Bytes) :
    readFrom strict [CodePoint.ofChar '=', CodePoint.ofChar '='] [x, y] 0 false done =
      .ok (done.reverse ++ bytesOfQuad [x, y]) := by
  simp [readFrom, List.reverseAux_eq]

theorem readFrom_padding_one (strict : Bool) (x y z : Nat) (done : Bytes) :
    readFrom strict [CodePoint.ofChar '='] [x, y, z] 0 false done =
      .ok (done.reverse ++ bytesOfQuad [x, y, z]) := by
  simp [readFrom, List.reverseAux_eq]

/-! ## The bytes of a quad -/

theorem firstByte (a b : UInt8) :
    UInt8.ofNat (a.toNat / 4 * 4 + (a.toNat % 4 * 16 + b.toNat / 16) / 16) = a := by
  have ha := a.toNat_lt
  have hb := b.toNat_lt
  rw [show a.toNat / 4 * 4 + (a.toNat % 4 * 16 + b.toNat / 16) / 16 = a.toNat by omega,
    UInt8.ofNat_toNat]

theorem secondByte (a b c : UInt8) :
    UInt8.ofNat ((a.toNat % 4 * 16 + b.toNat / 16) % 16 * 16 +
      (b.toNat % 16 * 4 + c.toNat / 64) / 4) = b := by
  have hb := b.toNat_lt
  have hc := c.toNat_lt
  rw [show (a.toNat % 4 * 16 + b.toNat / 16) % 16 * 16 + (b.toNat % 16 * 4 + c.toNat / 64) / 4 =
      b.toNat by omega, UInt8.ofNat_toNat]

theorem thirdByte (b c : UInt8) :
    UInt8.ofNat ((b.toNat % 16 * 4 + c.toNat / 64) % 4 * 64 + c.toNat % 64) = c := by
  have hc := c.toNat_lt
  rw [show (b.toNat % 16 * 4 + c.toNat / 64) % 4 * 64 + c.toNat % 64 = c.toNat by omega,
    UInt8.ofNat_toNat]

/-! ## Reading what was written -/

theorem readFrom_write (strict : Bool) (done : Bytes) : (bs : Bytes) →
    readFrom strict (write bs) [] 0 false done = .ok (done.reverse ++ bs)
  | [] => by simp [readFrom]
  | [a] => by
    have ha := a.toNat_lt
    -- The digits of a short quad are those of one filled up with zero bytes.
    have first := firstByte a 0
    rw [write_one, quadOfOne, readFrom_digit strict (by omega) _ (by simp),
      readFrom_digit strict (by omega) _ (by simp)]
    show readFrom strict _ [a.toNat / 4, a.toNat % 4 * 16] 0 false done = _
    rw [readFrom_padding_two, bytesOfQuad]
    simpa using first
  | [a, b] => by
    have ha := a.toNat_lt
    have hb := b.toNat_lt
    have first := firstByte a b
    have second := secondByte a b 0
    rw [write_two, quadOfTwo, readFrom_digit strict (by omega) _ (by simp),
      readFrom_digit strict (by omega) _ (by simp), readFrom_digit strict (by omega) _ (by simp)]
    show readFrom strict _ [a.toNat / 4, a.toNat % 4 * 16 + b.toNat / 16, b.toNat % 16 * 4] 0 false
      done = _
    rw [readFrom_padding_one, bytesOfQuad, first]
    simpa using second
  | a :: b :: c :: rest => by
    have ha := a.toNat_lt
    have hb := b.toNat_lt
    have hc := c.toNat_lt
    rw [write_three, quadOfThree]
    simp only [List.cons_append, List.nil_append]
    rw [readFrom_digit strict (by omega) _ (by simp), readFrom_digit strict (by omega) _ (by simp),
      readFrom_digit strict (by omega) _ (by simp)]
    show readFrom strict _ [a.toNat / 4, a.toNat % 4 * 16 + b.toNat / 16,
      b.toNat % 16 * 4 + c.toNat / 64] 0 false done = _
    rw [readFrom_lastDigit strict (by omega), readFrom_write strict _ rest, bytesOfQuad,
      firstByte, secondByte, thirdByte, List.reverseAux_eq]
    simp

/-! ## What is written -/

/-- Every code point of a written text is a digit or padding. -/
theorem mem_write {c : CodePoint} : (bs : Bytes) → c ∈ write bs →
    (∃ v < 64, c = digit v) ∨ c = CodePoint.ofChar '='
  | [], h => by simp at h
  | [a], h => by
    have ha := a.toNat_lt
    simp only [write_one, quadOfOne, List.mem_cons, List.not_mem_nil, or_false] at h
    rcases h with rfl | rfl | h | h
    · exact .inl ⟨_, by omega, rfl⟩
    · exact .inl ⟨_, by omega, rfl⟩
    · exact .inr h
    · exact .inr h
  | [a, b], h => by
    have ha := a.toNat_lt
    have hb := b.toNat_lt
    simp only [write_two, quadOfTwo, List.mem_cons, List.not_mem_nil, or_false] at h
    rcases h with rfl | rfl | rfl | h
    · exact .inl ⟨_, by omega, rfl⟩
    · exact .inl ⟨_, by omega, rfl⟩
    · exact .inl ⟨_, by omega, rfl⟩
    · exact .inr h
  | a :: b :: c' :: rest, h => by
    have ha := a.toNat_lt
    have hb := b.toNat_lt
    have hc := c'.toNat_lt
    simp only [write_three, quadOfThree, List.cons_append, List.nil_append, List.mem_cons] at h
    rcases h with rfl | rfl | rfl | rfl | h
    · exact .inl ⟨_, by omega, rfl⟩
    · exact .inl ⟨_, by omega, rfl⟩
    · exact .inl ⟨_, by omega, rfl⟩
    · exact .inl ⟨_, by omega, rfl⟩
    · exact mem_write rest h

/-- Four code points for every three bytes, and for those that are left over. -/
theorem length_write : (bs : Bytes) → (write bs).length = (bs.length + 2) / 3 * 4
  | [] => rfl
  | [a] => by simp [quadOfOne]
  | [a, b] => by simp [quadOfTwo]
  | a :: b :: c :: rest => by
    have behind := length_write rest
    rw [write_three, List.length_append, behind, quadOfThree]
    simp only [List.length_cons, List.length_nil]
    omega

theorem isAscii_write (bs : Bytes) : (write bs).IsAscii := by
  intro c h
  rcases mem_write bs h with ⟨v, hv, rfl⟩ | rfl
  · exact isAscii_digit hv
  · decide

theorem isScalar_write (bs : Bytes) : (write bs).IsScalar := (isAscii_write bs).isScalar

theorem all_isAscii_write (bs : Bytes) : (write bs).all CodePoint.isAscii = true :=
  List.all_eq_true.mpr (isAscii_write bs)

/-- There is no padding before the first digit. -/
theorem head?_write_ne_padding : (bs : Bytes) → (write bs).head? ≠ some (CodePoint.ofChar '=')
  | [] => by simp
  | [a] => by
    have ha := a.toNat_lt
    simpa [quadOfOne] using @digit_ne_padding (a.toNat / 4) (by omega)
  | [a, b] => by
    have ha := a.toNat_lt
    simpa [quadOfTwo] using @digit_ne_padding (a.toNat / 4) (by omega)
  | a :: b :: c :: rest => by
    have ha := a.toNat_lt
    simpa [quadOfThree] using @digit_ne_padding (a.toNat / 4) (by omega)

@[simp] theorem readLenient_write (bs : Bytes) : readLenient (write bs) = .ok bs := by
  rw [readLenient, all_isAscii_write]
  exact readFrom_write false [] bs

@[simp] theorem readStrict_write (bs : Bytes) : readStrict (write bs) = .ok bs := by
  rw [readStrict, all_isAscii_write, if_neg (head?_write_ne_padding bs)]
  exact readFrom_write true [] bs

theorem isAscii_of_readStrict {t : Text} {bs : Bytes} (h : readStrict t = .ok bs) : t.IsAscii := by
  rw [readStrict] at h
  split at h
  · cases h
  next ascii =>
    rw [Bool.not_eq_true', Bool.not_eq_false] at ascii
    exact List.all_eq_true.mp ascii

/-! ## Text that holds bytes -/

theorem bytesOfQuad_ne_nil {quad : List Nat} (low : 2 ≤ quad.length) (high : quad.length ≤ 4) :
    bytesOfQuad quad ≠ [] := by
  match quad with
  | [_, _] | [_, _, _] | [_, _, _, _] => exact List.cons_ne_nil _ _

/-- A started quad is finished or refused, so that it comes to some bytes. -/
theorem ne_nil_of_readFrom {strict : Bool} {t : Text} {quad : List Nat} {pads : Nat} {padded : Bool}
    {done bs : Bytes} (h : readFrom strict t quad pads padded done = .ok bs)
    (started : done ≠ [] ∨ quad ≠ []) (short : quad.length ≤ 3) : bs ≠ [] := by
  fun_induction readFrom strict t quad pads padded done with
  | case1 =>
    cases h
    simpa using started
  | case4 t quad pads padded done few ih => exact ih h started short
  | case5 t quad pads padded done few room ih => exact ih h started short
  | case7 t quad pads padded done enough full =>
    cases h
    have bytes : bytesOfQuad quad ≠ [] := bytesOfQuad_ne_nil (by omega) (by omega)
    simp [List.reverseAux_eq, bytes]
  | case9 c t quad pads padded done plain digit lenient ih => exact ih h started short
  | case11 c t quad pads padded done plain v digit order room ih =>
    refine ih h (.inr (by simp)) ?_
    rw [List.length_append]
    exact room
  | case12 c t quad pads padded done plain v digit order full ih =>
    have length : (quad ++ [v]).length = quad.length + 1 := List.length_append
    have bytes : bytesOfQuad (quad ++ [v]) ≠ [] := bytesOfQuad_ne_nil (by omega) (by omega)
    exact ih h (.inl (by simp [List.reverseAux_eq, bytes])) (Nat.zero_le _)
  | _ => cases h

/-- Strictly read, text that is not empty starts with a digit. -/
theorem ne_nil_of_readStrict {t : Text} {bs : Bytes} (h : readStrict t = .ok bs) (text : t ≠ []) :
    bs ≠ [] := by
  rw [readStrict] at h
  split at h
  · cases h
  split at h
  · cases h
  next padding =>
    cases t with
    | nil => exact absurd rfl text
    | cons c t =>
      have digit : c ≠ CodePoint.ofChar '=' := fun eq => padding (congrArg some eq)
      rw [readFrom, if_neg digit] at h
      split at h
      · cases h
      · exact ne_nil_of_readFrom h (.inr (List.cons_ne_nil _ _)) (by simp)

end PartRelay.Base64
