import PartRelay.Text.Integer

/-!
# Decimal numerals

What `Text.ofNat` and `Text.ofInt` write, the readers of digits and integers take back. Main
statements: a run of digits ends where the numeral ends, `Integer.read` gives every writable number
back and none but writable ones, and two integers with one numeral are equal.
-/

namespace PartRelay

/-! ## Single digits -/

namespace CodePoint

theorem isDigit_iff {c : CodePoint} : c.isDigit = true ↔ 0x30 ≤ c.val ∧ c.val ≤ 0x39 := by
  simp [isDigit, between]

theorem digitValue?_of_isDigit {c : CodePoint} (h : c.isDigit = true) :
    c.digitValue? = some (c.val - 0x30) := by
  have found : zeros.find? (fun first => c.between first (first + 9)) = some 0x30 :=
    List.find?_cons_of_pos h
  rw [digitValue?, found, Option.map_some]

theorem digitValue?_lt {c : CodePoint} {d : Nat} (h : c.digitValue? = some d) : d < 10 := by
  obtain ⟨first, found, rfl⟩ := Option.map_eq_some_iff.mp h
  have range := List.find?_some found
  rw [between, Bool.and_eq_true, decide_eq_true_eq, decide_eq_true_eq] at range
  omega

/-- Digits stand on their own: they are no sign, no underscore and no margin. -/
theorem ne_of_isDigit {c d : CodePoint} (h : c.isDigit = true) (hd : d.isDigit = false) :
    c ≠ d := by
  rintro rfl
  rw [h] at hd
  cases hd

end CodePoint

/-! ## Numerals of natural numbers -/

namespace Text

theorem isDigit_of_mem_ofNat {n : Nat} {c : CodePoint} (h : c ∈ ofNat n) : c.isDigit = true := by
  obtain ⟨d, hd, rfl⟩ := List.mem_map.mp h
  have digit := Nat.isDigit_of_mem_toDigits (by decide) (by decide) hd
  simp only [Char.isDigit, Bool.and_eq_true, decide_eq_true_eq] at digit
  rw [CodePoint.isDigit_iff, CodePoint.val_ofChar]
  exact ⟨digit.1, digit.2⟩

theorem ofNat_ne_nil (n : Nat) : ofNat n ≠ [] := by
  simp [ofNat]

/-- A numeral starts with a digit. -/
theorem ofNat_eq_cons (n : Nat) : ∃ c t, ofNat n = c :: t ∧ c.isDigit = true := by
  cases h : ofNat n with
  | nil => exact absurd h (ofNat_ne_nil n)
  | cons c t => exact ⟨c, t, rfl, isDigit_of_mem_ofNat (n := n) (by simp [h])⟩

theorem length_ofNat_le_iff {n k : Nat} (h : 0 < k) : (ofNat n).length ≤ k ↔ n < Nat.pow 10 k := by
  rw [ofNat, List.length_map]
  exact Nat.length_toDigits_le_iff (by decide) h

/-- No numeral but that of zero starts with a zero. -/
theorem head_ofNat_ne_zero {n : Nat} (h : n ≠ 0) :
    (ofNat n).head? ≠ some (CodePoint.ofChar '0') := by
  induction n using Nat.strongRecOn with
  | ind n ih =>
    rw [ofNat, Nat.toDigits_eq_if (by decide)]
    by_cases small : n < 10
    · have digit : Nat.digitChar n ≠ '0' := by simpa using h
      simp only [small, if_true, List.map_cons, List.head?_cons, ne_eq, Option.some.injEq]
      intro eq
      have val := congrArg CodePoint.val eq
      rw [CodePoint.val_ofChar, CodePoint.val_ofChar] at val
      exact digit (Char.toNat_inj.mp val)
    · have front := ih (n / 10) (by omega) (by omega)
      obtain ⟨c, t, tens, _⟩ := ofNat_eq_cons (n / 10)
      rw [tens] at front
      rw [if_neg small, List.map_append, ← ofNat, tens]
      exact front

end Text

/-! ## Reading digits -/

namespace Digits

/-- The values of the digits of a text. -/
def ofText (t : Text) : List Nat := t.map fun c => c.val - 0x30

theorem ofText_append (s t : Text) : ofText (s ++ t) = ofText s ++ ofText t := List.map_append

theorem length_ofText (t : Text) : (ofText t).length = t.length := List.length_map _

theorem extend_ofChars (start : Nat) (chars : List Char) :
    extend 10 start (ofText (chars.map CodePoint.ofChar)) = Nat.ofDigitChars 10 chars start := by
  induction chars generalizing start with
  | nil => rfl
  | cons c chars ih =>
    rw [Nat.ofDigitChars_cons, ← ih, Nat.mul_comm]
    rfl

@[simp] theorem value_ofNat (n : Nat) : value 10 (ofText (Text.ofNat n)) = n := by
  rw [value_eq, Text.ofNat, extend_ofChars, Nat.ofDigitChars_ten_toDigits]

/-- A run of digits stays below the power of the base that has one place more. -/
theorem extend_lt {base : Nat} (start : Nat) {digits : List Nat} (h : ∀ d ∈ digits, d < base) :
    extend base start digits < (start + 1) * Nat.pow base digits.length := by
  induction digits generalizing start with
  | nil =>
    show start < (start + 1) * 1
    omega
  | cons d digits ih =>
    have head : d < base := h d List.mem_cons_self
    have step : start * base + d + 1 ≤ (start + 1) * base := by
      rw [Nat.add_mul, Nat.one_mul]
      omega
    calc extend base start (d :: digits)
        < (start * base + d + 1) * Nat.pow base digits.length :=
          ih _ fun d' hd => h d' (List.mem_cons_of_mem _ hd)
      _ ≤ (start + 1) * base * Nat.pow base digits.length := Nat.mul_le_mul_right _ step
      _ = (start + 1) * Nat.pow base (d :: digits).length := by
          have pow : Nat.pow base (digits.length + 1) = Nat.pow base digits.length * base := rfl
          rw [List.length_cons, pow, Nat.mul_assoc, Nat.mul_comm base]

theorem value_lt {base : Nat} {digits : List Nat} (h : ∀ d ∈ digits, d < base) :
    value base digits < Nat.pow base digits.length := by
  have bound := extend_lt 0 h
  rwa [Nat.zero_add, Nat.one_mul, ← value_eq] at bound

/-- A run of digits ends where something else follows. -/
theorem span_append {digits rest : Text} (hd : ∀ c ∈ digits, c.isDigit = true)
    (hr : ∀ c ∈ rest.head?, c.isDigit = false) :
    span (digits ++ rest) = (ofText digits, rest) := by
  have take : (digits ++ rest).takeWhile CodePoint.isDigit = digits := by
    rw [List.takeWhile_append_of_pos hd]
    cases rest with
    | nil => simp
    | cons c rest => simp [hr c rfl]
  have drop : (digits ++ rest).dropWhile CodePoint.isDigit = rest := by
    rw [List.dropWhile_append_of_pos hd]
    cases rest with
    | nil => rfl
    | cons c rest => simp [hr c rfl]
  rw [span, take, drop]
  rfl

end Digits

/-! ## Reading integers -/

namespace Integer

theorem digits?_of_isDigit {t : Text} (h : ∀ c ∈ t, c.isDigit = true) (done : List Nat)
    (fresh : Bool) (start : fresh = true → t ≠ []) :
    digits? t fresh done = some (done.reverse ++ Digits.ofText t, []) := by
  induction t generalizing done fresh with
  | nil =>
    cases fresh with
    | true => exact absurd rfl (start rfl)
    | false => simp [digits?, Digits.ofText]
  | cons c t ih =>
    have digit : c.isDigit = true := h c (by simp)
    have underscore : c ≠ CodePoint.ofChar '_' := CodePoint.ne_of_isDigit digit (by decide)
    rw [digits?, if_neg underscore, CodePoint.digitValue?_of_isDigit digit]
    show digits? t false ((c.val - 0x30) :: done) = _
    rw [ih (fun d hd => h d (by simp [hd])) _ false (by simp)]
    simp [Digits.ofText]

theorem isMargin_of_isDigit {c : CodePoint} (h : c.isDigit = true) : isMargin c = false := by
  rw [CodePoint.isDigit_iff] at h
  simp [isMargin, CodePoint.isAsciiBlank, CodePoint.between, show c.val < 0x7F by omega]
  omega

/-- Nothing stands around a numeral that starts with a digit or a sign. -/
theorem dropMargins_cons {c : CodePoint} {t : Text} (h : isMargin c = false) :
    (c :: t).dropWhile isMargin = c :: t := by
  simp [h]

theorem isWritable_iff {n : Int} : isWritable n = true ↔ n.natAbs < unwritable := by
  rw [isWritable, decide_eq_true_eq]

theorem isWritable_unwritable : isWritable unwritable = false := by
  rw [isWritable, Int.natAbs_natCast]
  exact decide_eq_false (Nat.lt_irrefl _)

/-- A number that is no longer than a machine word can be written. -/
theorem isWritable_of_natAbs_lt {n : Int} (word : n.natAbs < 0x10000000000000000) :
    isWritable n = true := by
  have twenty : 0x10000000000000000 ≤ Nat.pow 10 20 := by decide
  have more : 20 ≤ digitLimit := by decide
  rw [isWritable_iff]
  unfold unwritable
  generalize digitLimit = digits at more ⊢
  exact Nat.lt_of_lt_of_le word (Nat.le_trans twenty (Nat.pow_le_pow_right (by decide) more))

theorem isWritable_of_lt {n : Int} (nonneg : 0 ≤ n) (h : n < 0x10000000000000000) :
    isWritable n = true :=
  isWritable_of_natAbs_lt (by omega)

/-- What lies between writable numbers is writable. -/
theorem isWritable_of_between {low n high : Int} (hl : isWritable low = true)
    (hh : isWritable high = true) (above : low ≤ n) (below : n ≤ high) : isWritable n = true := by
  rw [isWritable_iff] at hl hh ⊢
  generalize unwritable = limit at hl hh ⊢
  omega

/-- A numeral behind its sign gives the digits that it was made of. -/
theorem digits?_ofNat (n : Nat) :
    digits? (Text.ofNat n) true [] = some (Digits.ofText (Text.ofNat n), []) := by
  have h := digits?_of_isDigit (fun c hc => Text.isDigit_of_mem_ofNat hc) [] true
    (fun _ => Text.ofNat_ne_nil n)
  simpa using h

/-- The numeral of a writable number keeps to the limit of digits. -/
theorem length_ofNat_le {n : Nat} (h : n < unwritable) : (Text.ofNat n).length ≤ digitLimit := by
  have limit : 0 < digitLimit := by decide
  unfold unwritable at h
  generalize digitLimit = digits at limit h ⊢
  exact (Text.length_ofNat_le_iff limit).mpr h

theorem not_digitLimit_lt {n : Nat} (h : n < unwritable) :
    ¬ (Digits.ofText (Text.ofNat n)).length > digitLimit := by
  rw [Digits.ofText, List.length_map]
  exact Nat.not_lt.mpr (length_ofNat_le h)

theorem sign_ofNat (n : Nat) : sign (Text.ofNat n) = (false, Text.ofNat n) := by
  obtain ⟨c, t, h, digit⟩ := Text.ofNat_eq_cons n
  have minus : c ≠ CodePoint.ofChar '-' := CodePoint.ne_of_isDigit digit (by decide)
  have plus : c ≠ CodePoint.ofChar '+' := CodePoint.ne_of_isDigit digit (by decide)
  rw [h, sign, if_neg minus, if_neg plus]

/-- A text is read once its sign is known and its digits end it. -/
theorem read_of_digits? {t body : Text} {negative : Bool} {digits : List Nat}
    (signed : sign (t.dropWhile isMargin) = (negative, body))
    (ends : digits? body true [] = some (digits, [])) (limit : ¬ digits.length > digitLimit) :
    read t =
      .ok (if negative then -(Digits.value 10 digits : Int) else Digits.value 10 digits) := by
  rw [read, signed]
  simp only [ends, if_neg limit, List.all_nil, if_true]

theorem read_ofInt {n : Int} (h : isWritable n = true) : read (Text.ofInt n) = .ok n := by
  have digits := digits?_ofNat n.natAbs
  have limit := not_digitLimit_lt (isWritable_iff.mp h)
  by_cases negative : n < 0
  · have signed : sign ((Text.ofInt n).dropWhile isMargin) = (true, Text.ofNat n.natAbs) := by
      rw [Text.ofInt, if_pos negative, dropMargins_cons (by decide), sign, if_pos rfl]
    rw [read_of_digits? signed digits limit, Digits.value_ofNat, if_pos rfl,
      Int.ofNat_natAbs_of_nonpos (Int.le_of_lt negative), Int.neg_neg]
  · have signed : sign ((Text.ofInt n).dropWhile isMargin) = (false, Text.ofNat n.natAbs) := by
      obtain ⟨c, t, h, digit⟩ := Text.ofNat_eq_cons n.natAbs
      rw [Text.ofInt, if_neg negative, h, dropMargins_cons (isMargin_of_isDigit digit), ← h,
        sign_ofNat]
    rw [read_of_digits? signed digits limit, Digits.value_ofNat, if_neg (by decide),
      Int.natAbs_of_nonneg (Int.not_lt.mp negative)]

/-! ## What is read can be written -/

/-- The number of digits that keep to the limit can be written, behind a minus sign too. -/
theorem isWritable_value {digits : List Nat} (h : ∀ d ∈ digits, d < 10)
    (limit : digits.length ≤ digitLimit) (negative : Bool) :
    isWritable (if negative then -(Digits.value 10 digits : Int) else Digits.value 10 digits)
      = true := by
  have bound : Digits.value 10 digits < unwritable := by
    refine Nat.lt_of_lt_of_le (Digits.value_lt h) ?_
    unfold unwritable
    generalize digitLimit = most at limit ⊢
    exact Nat.pow_le_pow_right (by decide) limit
  rw [isWritable_iff]
  generalize unwritable = most at bound ⊢
  cases negative
  · rw [if_neg (by decide)]
    omega
  · rw [if_pos rfl]
    omega

theorem lt_of_digits? {t rest : Text} {fresh : Bool} {done digits : List Nat}
    (small : ∀ d ∈ done, d < 10) (h : digits? t fresh done = some (digits, rest)) :
    ∀ d ∈ digits, d < 10 := by
  induction t generalizing fresh done with
  | nil =>
    cases fresh with
    | true => cases h
    | false =>
      cases h
      exact fun d hd => small d (List.mem_reverse.mp hd)
  | cons c t ih =>
    rw [digits?] at h
    split at h
    · cases fresh with
      | true => cases h
      | false => exact ih small h
    · split at h
      next value =>
        refine ih (fun d hd => ?_) h
        rcases List.mem_cons.mp hd with rfl | old
        · exact CodePoint.digitValue?_lt value
        · exact small d old
      next =>
        cases fresh with
        | true => cases h
        | false =>
          cases h
          exact fun d hd => small d (List.mem_reverse.mp hd)

theorem isWritable_of_read {t : Text} {n : Int} (h : read t = .ok n) : isWritable n = true := by
  rw [read] at h
  -- The sign has no say in how long the number is.
  generalize sign (t.dropWhile isMargin) = signed at h
  obtain ⟨negative, body⟩ := signed
  dsimp only at h
  split at h
  · cases h
  next digits rest found =>
    split at h
    · cases h
    next limit =>
      split at h
      · cases h
        exact isWritable_value (lt_of_digits? (fun _ none => absurd none List.not_mem_nil) found)
          (Nat.not_lt.mp limit) _
      · cases h

end Integer

/-! ## One numeral for each integer -/

namespace Text

theorem ofNat_injective {m n : Nat} (h : ofNat m = ofNat n) : m = n := by
  rw [← Digits.value_ofNat m, h, Digits.value_ofNat]

theorem ofNat_ne_minus (n : Nat) (t : Text) : ofNat n ≠ CodePoint.ofChar '-' :: t := by
  intro h
  have digit := isDigit_of_mem_ofNat (n := n) (c := CodePoint.ofChar '-') (by simp [h])
  exact absurd digit (by decide)

theorem ofInt_injective {m n : Int} (h : ofInt m = ofInt n) : m = n := by
  by_cases hm : m < 0
  · by_cases hn : n < 0
    · rw [ofInt, ofInt, if_pos hm, if_pos hn, List.cons.injEq] at h
      have abs := ofNat_injective h.2
      omega
    · rw [ofInt, ofInt, if_pos hm, if_neg hn] at h
      exact absurd h.symm (ofNat_ne_minus _ _)
  · by_cases hn : n < 0
    · rw [ofInt, ofInt, if_neg hm, if_pos hn] at h
      exact absurd h (ofNat_ne_minus _ _)
    · rw [ofInt, ofInt, if_neg hm, if_neg hn] at h
      have abs := ofNat_injective h
      omega

end Text

end PartRelay
