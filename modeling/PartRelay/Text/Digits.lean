import PartRelay.Text.Basic

/-!
# Digits

Runs of digits and the numbers they stand for. A long run is cut into halves, so that reading it
costs little more than multiplying numbers of its size. Main statement: the halves give what reading
one digit after the other gives.
-/

namespace PartRelay.Digits

/-- The digits at the start of a text and what follows them. -/
def span (t : Text) : List Nat × Text :=
  ((t.takeWhile CodePoint.isDigit).map fun c => c.val - 0x30, t.dropWhile CodePoint.isDigit)

/-- The number of digits put behind those of `start`. -/
def extend (base start : Nat) (digits : List Nat) : Nat :=
  digits.foldl (fun n d => n * base + d) start

/-- The number of a run that is cut into halves a number of times. -/
def valueByHalves (base : Nat) : (cuts : Nat) → List Nat → Nat
  | 0, digits => extend base 0 digits
  | cuts + 1, digits =>
    let back := digits.drop (digits.length / 2)
    valueByHalves base cuts (digits.take (digits.length / 2)) * Nat.pow base back.length +
      valueByHalves base cuts back

/-- The number of some digits, the greatest place first. The pieces that are read digit by digit
have some dozens of digits. -/
def value (base : Nat) (digits : List Nat) : Nat :=
  valueByHalves base (Nat.log2 digits.length - 5) digits

/-! ## Halves -/

theorem extend_eq (base start : Nat) (digits : List Nat) :
    extend base start digits = start * Nat.pow base digits.length + extend base 0 digits := by
  induction digits generalizing start with
  | nil => simp [extend]
  | cons d digits ih =>
    show extend base (start * base + d) digits = _ + extend base (0 * base + d) digits
    have pow : Nat.pow base (digits.length + 1) = Nat.pow base digits.length * base := rfl
    rw [ih, ih (0 * base + d), List.length_cons, pow, Nat.zero_mul, Nat.zero_add,
      Nat.add_mul, Nat.mul_assoc, Nat.mul_comm base, Nat.add_assoc]

theorem extend_append (base start : Nat) (front back : List Nat) :
    extend base start (front ++ back) = extend base (extend base start front) back := by
  simp [extend]

theorem valueByHalves_eq (base cuts : Nat) (digits : List Nat) :
    valueByHalves base cuts digits = extend base 0 digits := by
  induction cuts generalizing digits with
  | zero => rfl
  | succ cuts ih =>
    rw [valueByHalves, ih, ih, ← extend_eq, ← extend_append, List.take_append_drop]

theorem value_eq (base : Nat) (digits : List Nat) : value base digits = extend base 0 digits :=
  valueByHalves_eq ..

end PartRelay.Digits
