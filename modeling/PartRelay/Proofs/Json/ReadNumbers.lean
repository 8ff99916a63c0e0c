import PartRelay.Json.Fields
import PartRelay.Proofs.Json.Reading
import PartRelay.Proofs.Results
import PartRelay.Proofs.Table

/-!
# Numbers that were read

A value that was read holds no number that is too long to be written: its integers keep to the limit
of digits, its fractions to the range of the format, and an integer that is made of one of its
fields keeps to the limit as well.
-/

namespace PartRelay

/-! ## Fractions -/

namespace Binary64

/-- A mantissa and an exponent as rounding gives them. The mantissa has a place to spare. -/
def IsBounded : Binary64 → Prop
  | .finite _ mantissa exponent => mantissa ≤ twoTo 54 ∧ exponent ≤ maxExponent
  | _ => True

theorem roundRatio_le (num den : Nat) : roundRatio num den ≤ num / den + 1 := by
  unfold roundRatio
  dsimp only
  split
  · omega
  split
  · omega
  split
  · omega
  · omega

theorem log2Ratio_ge (num den : Nat) :
    (Nat.log2 num : Int) - Nat.log2 den - 1 ≤ log2Ratio num den := by
  unfold log2Ratio
  dsimp only
  split <;> omega

/-- At an exponent that leaves 53 places or fewer, the ratio has no more than one place more. -/
theorem scaled_lt {num den : Nat} (positive : 0 < den) {exponent : Int}
    (h : log2Ratio num den - 52 ≤ exponent) :
    num * twoTo (-exponent).toNat < den * twoTo exponent.toNat * twoTo 54 := by
  have low := log2Ratio_ge num den
  have above : num < 2 ^ (num.log2 + 1) := Nat.lt_log2_self
  have below : 2 ^ den.log2 ≤ den := Nat.log2_self_le (Nat.ne_of_gt positive)
  have places : num.log2 + 1 + (-exponent).toNat ≤ den.log2 + exponent.toNat + 54 := by omega
  show num * 2 ^ (-exponent).toNat < den * 2 ^ exponent.toNat * 2 ^ 54
  calc num * 2 ^ (-exponent).toNat
      < 2 ^ (num.log2 + 1) * 2 ^ (-exponent).toNat :=
        Nat.mul_lt_mul_of_pos_right above (Nat.two_pow_pos _)
    _ = 2 ^ (num.log2 + 1 + (-exponent).toNat) := (Nat.pow_add ..).symm
    _ ≤ 2 ^ (den.log2 + exponent.toNat + 54) := Nat.pow_le_pow_right (by decide) places
    _ = 2 ^ den.log2 * 2 ^ exponent.toNat * 2 ^ 54 := by rw [Nat.pow_add, Nat.pow_add]
    _ ≤ den * 2 ^ exponent.toNat * 2 ^ 54 :=
        Nat.mul_le_mul_right _ (Nat.mul_le_mul_right _ below)

theorem isBounded_ofRatio (negative : Bool) (num : Nat) {den : Nat} (positive : 0 < den) :
    (ofRatio negative num den).IsBounded := by
  unfold ofRatio
  extract_lets exponent mantissa
  have bound : mantissa ≤ twoTo 54 := by
    have small := Nat.div_lt_of_lt_mul
      (scaled_lt positive (show log2Ratio num den - 52 ≤ exponent from Int.le_max_right ..))
    exact Nat.le_trans (roundRatio_le ..) small
  by_cases carry : mantissa = twoTo 53
  · rw [if_pos carry]
    dsimp only
    split
    · trivial
    next range => exact ⟨Nat.pow_le_pow_right (by decide) (by decide), Int.not_lt.mp range⟩
  · rw [if_neg carry]
    dsimp only
    split
    · trivial
    next range => exact ⟨bound, Int.not_lt.mp range⟩

theorem isBounded_ofDecimal (negative : Bool) (digits : Nat) (scale : Int) :
    (ofDecimal negative digits scale).IsBounded := by
  unfold ofDecimal
  extract_lets power
  split
  · exact ⟨Nat.zero_le _, by decide⟩
  split
  · trivial
  · exact isBounded_ofRatio _ _ (Nat.pow_pos (by decide))

/-- The exponent is bounded by a variable, so that no power of a numeral is ever evaluated. -/
theorem whole_lt {mantissa top : Nat} {exponent : Int} (small : mantissa ≤ twoTo 54)
    (range : exponent.toNat ≤ top) (places : 54 + top < Integer.digitLimit) :
    mantissa * twoTo exponent.toNat / twoTo (-exponent).toNat < Integer.unwritable := by
  unfold Integer.unwritable
  generalize Integer.digitLimit = most at places
  calc mantissa * twoTo exponent.toNat / twoTo (-exponent).toNat
      ≤ mantissa * twoTo exponent.toNat := Nat.div_le_self ..
    _ ≤ 2 ^ 54 * 2 ^ top := Nat.mul_le_mul small (Nat.pow_le_pow_right (by decide) range)
    _ = 2 ^ (54 + top) := (Nat.pow_add ..).symm
    _ ≤ 10 ^ (54 + top) := Nat.pow_le_pow_left (by decide) _
    _ < 10 ^ most := Nat.pow_lt_pow_right (by decide) places

theorem isWritable_truncate (negative : Bool) {mantissa : Nat} {exponent : Int}
    (h : (finite negative mantissa exponent).IsBounded) :
    Integer.isWritable (truncate negative mantissa exponent) = true := by
  have whole := whole_lt h.1 (Int.toNat_le_toNat h.2) (by decide)
  rw [Integer.isWritable_iff, truncate]
  generalize mantissa * twoTo exponent.toNat / twoTo (-exponent).toNat = n at whole ⊢
  generalize Integer.unwritable = most at whole ⊢
  cases negative
  · exact whole
  · show (-(n : Int)).natAbs < most
    omega

end Binary64

/-! ## Values -/

namespace Json

/-- A value all of whose numbers are bounded. -/
inductive IsMeasured : Json → Prop where
  | null : IsMeasured .null
  | bool (b : Bool) : IsMeasured (.bool b)
  | int {n : Int} (h : Integer.isWritable n = true) : IsMeasured (.int n)
  | float {x : Binary64} (h : x.IsBounded) : IsMeasured (.float x)
  | string (s : Text) : IsMeasured (.string s)
  | array {items : List Json} (h : ∀ item ∈ items, IsMeasured item) : IsMeasured (.array items)
  | object {fields : List (Text × Json)} (h : ∀ field ∈ fields, IsMeasured field.2) :
      IsMeasured (.object fields)

variable {j : Json} {t rest : Text}

/-- The integer of a measured value can be written. -/
theorem IsMeasured.isWritable_of_toInt (h : j.IsMeasured) {n : Int} (eq : j.toInt = .ok n) :
    Integer.isWritable n = true := by
  cases h with
  | null => cases eq
  | bool b =>
    cases eq
    cases b
    · exact Integer.isWritable_of_lt (by decide) (by decide)
    · exact Integer.isWritable_of_lt (by decide) (by decide)
  | int h =>
    cases eq
    exact h
  | @float x h =>
    cases x with
    | nan => cases eq
    | infinite negative => cases eq
    | finite negative mantissa exponent =>
      cases eq
      exact Binary64.isWritable_truncate negative h
  | string s => exact Integer.isWritable_of_read (mapError_eq_ok.mp eq)
  | array h => cases eq
  | object h => cases eq

theorem IsMeasured.of_field? (h : j.IsMeasured) {key : Text} {value : Json}
    (found : j.field? key = some value) : value.IsMeasured := by
  cases h with
  | object h => exact h _ (Table.mem_of_get? found)
  | _ => cases found

theorem IsMeasured.isWritable_of_intOrZero (h : j.IsMeasured) {key : Text} {n : Int}
    (eq : j.intOrZero key = .ok n) : Integer.isWritable n = true := by
  have int := mapError_eq_ok.mp eq
  cases found : j.field? key with
  | none =>
    rw [found] at int
    cases int
    exact Integer.isWritable_of_lt (by decide) (by decide)
  | some value =>
    rw [found] at int
    exact (h.of_field? found).isWritable_of_toInt int

/-! ## Tokens -/

theorem Number.isMeasured (h : Number (some Integer.digitLimit) t j) : j.IsMeasured := by
  cases h with
  | @int negative digits whole short =>
    refine .int (Integer.isWritable_value (fun d hd => ?_) ?_ negative)
    · obtain ⟨c, hc, rfl⟩ := List.mem_map.mp hd
      have digit := CodePoint.isDigit_iff.mp (whole.digits.isDigit c hc)
      omega
    · rw [Digits.length_ofText]
      exact short _ rfl
  | float whole fraction power some => exact .float (Binary64.isBounded_ofDecimal ..)

theorem isMeasured_of_mem_words {word : Text} (h : (word, j) ∈ words) : j.IsMeasured := by
  simp only [words, List.mem_cons, Prod.mk.injEq, List.not_mem_nil, or_false] at h
  rcases h with ⟨_, rfl⟩ | ⟨_, rfl⟩ | ⟨_, rfl⟩ | ⟨_, rfl⟩ | ⟨_, rfl⟩ | ⟨_, rfl⟩
  · exact .null
  · exact .bool _
  · exact .bool _
  · exact .float trivial
  · exact .float trivial
  · exact .float trivial

/-! ## Phrases -/

/-- A phrase all of whose values are measured. -/
def Phrase.IsMeasured : Phrase → Prop
  | .value j | .member _ j => j.IsMeasured
  | .items js => ∀ j ∈ js, j.IsMeasured
  | .object ms | .members ms => ∀ field ∈ ms, field.2.IsMeasured

theorem Derives.isMeasured {levels : Nat} {p : Phrase} (h : Derives .accepted levels t p rest) :
    p.IsMeasured := by
  induction h with
  | string token => exact .string _
  | word among _ => exact isMeasured_of_mem_words among
  | number token _ => exact token.isMeasured
  | emptyArray close => exact .array (List.forall_mem_nil _)
  | array h ih => exact .array ih
  | lastItem h close ih => exact List.forall_mem_singleton.mpr ih
  | item h comma more ih later => exact List.forall_mem_cons.mpr ⟨ih, later⟩
  | fields h ih => exact .object fun field hf => ih field (Table.mem_of_mem_ofWrites hf)
  | emptyObject close => exact List.forall_mem_nil _
  | object h ih => exact ih
  | member token colon h ih => exact ih
  | lastMember h close ih => exact List.forall_mem_singleton.mpr ih
  | memberAnd h comma more ih later => exact List.forall_mem_cons.mpr ⟨ih, later⟩

theorem isMeasured_of_read (h : read t = .ok j) : j.IsMeasured := by
  obtain ⟨_, rest, derived, _⟩ := read_eq_ok_iff.mp h
  exact derived.isMeasured

end Json

end PartRelay
