import PartRelay.Proofs.Text.Ascii

/-!
# UTF-8 text

Reading takes what writing makes of characters, and nothing else: no surrogate, no form that is too
long, nothing past the last code point. Main statement: `read_eq_ok_iff`.
-/

namespace PartRelay.Utf8

variable {b : UInt8}

/-! ## First bytes -/

theorem start?_two (h : 0xC2 ≤ b.toNat ∧ b.toNat < 0xE0) :
    Sequence.start? b = some ⟨b, 1, 0, 0x80, 0xBF, b.toNat - 0xC0⟩ := by
  unfold Sequence.start?
  rw [if_neg (by omega), if_pos (by omega)]

/-- Behind `0xE0` the second byte keeps short forms out, behind `0xED` surrogates. -/
theorem start?_three (h : 0xE0 ≤ b.toNat ∧ b.toNat < 0xF0) :
    ∃ low high, Sequence.start? b = some ⟨b, 1, 1, low, high, b.toNat - 0xE0⟩ ∧
      ∀ m, low ≤ m ∧ m ≤ high ↔ 0x80 ≤ m ∧ m ≤ 0xBF ∧ (b.toNat = 0xE0 → 0xA0 ≤ m) ∧
        (b.toNat = 0xED → m ≤ 0x9F) := by
  unfold Sequence.start?
  rw [if_neg (by omega), if_neg (by omega)]
  by_cases shortest : b.toNat = 0xE0
  · exact ⟨0xA0, 0xBF, by simp [shortest], by omega⟩
  by_cases surrogates : b.toNat = 0xED
  · exact ⟨0x80, 0x9F, by simp [surrogates], by omega⟩
  · exact ⟨0x80, 0xBF, by simp [shortest, surrogates, h.2], by omega⟩

/-- Behind `0xF0` the second byte keeps short forms out, behind `0xF4` what is no code point. -/
theorem start?_four (h : 0xF0 ≤ b.toNat ∧ b.toNat < 0xF5) :
    ∃ low high, Sequence.start? b = some ⟨b, 1, 2, low, high, b.toNat - 0xF0⟩ ∧
      ∀ m, low ≤ m ∧ m ≤ high ↔ 0x80 ≤ m ∧ m ≤ 0xBF ∧ (b.toNat = 0xF0 → 0x90 ≤ m) ∧
        (b.toNat = 0xF4 → m ≤ 0x8F) := by
  unfold Sequence.start?
  rw [if_neg (by omega), if_neg (by omega), if_neg (by omega), if_neg (by omega),
    if_neg (by omega)]
  by_cases shortest : b.toNat = 0xF0
  · exact ⟨0x90, 0xBF, by simp [shortest], by omega⟩
  by_cases last : b.toNat = 0xF4
  · exact ⟨0x80, 0x8F, by simp [last], by omega⟩
  · exact ⟨0x80, 0xBF, by rw [if_neg shortest, if_pos (by omega)], by omega⟩

theorem start?_eq_none (h : b.toNat < 0xC2 ∨ 0xF5 ≤ b.toNat) : Sequence.start? b = none := by
  unfold Sequence.start?
  by_cases low : b.toNat < 0xC2
  · rw [if_pos low]
  · rw [if_neg low, if_neg (by omega), if_neg (by omega), if_neg (by omega), if_neg (by omega),
      if_neg (by omega), if_neg (by omega), if_neg (by omega)]

/-! ## Sequences -/

/-- The bytes that complete a sequence, and the number that it stands for then. -/
inductive Completes : (missing low high value : Nat) → Bytes → Nat → Prop where
  | last {b : UInt8} {low high value n : Nat} (range : low ≤ b.toNat ∧ b.toNat ≤ high)
      (number : n = value * 0x40 + (b.toNat - 0x80)) : Completes 0 low high value [b] n
  | more {b : UInt8} {missing low high value n : Nat} {tail : Bytes}
      (range : low ≤ b.toNat ∧ b.toNat ≤ high)
      (rest : Completes missing 0x80 0xBF (value * 0x40 + (b.toNat - 0x80)) tail n) :
      Completes (missing + 1) low high value (b :: tail) n

theorem readFrom_of_completes {missing low high value n : Nat} {tail : Bytes}
    (h : Completes missing low high value tail n) (rest : Bytes) (first : UInt8)
    (position taken : Nat) (done : Text) :
    readFrom (tail ++ rest) position (some ⟨first, taken, missing, low, high, value⟩) done =
      readFrom rest (position + tail.length) none (.ofNat n :: done) := by
  induction h generalizing position taken with
  | last range number =>
    rw [List.singleton_append, readFrom, if_pos range, number]
    rfl
  | @more b missing low high value n tail range _ ih =>
    rw [List.cons_append, readFrom, if_pos range]
    dsimp only
    rw [ih, List.length_cons, Nat.add_right_comm, Nat.add_assoc position]

theorem completes_of_readFrom {bs : Bytes} {first : UInt8}
    {position taken missing low high value : Nat} {done t : Text}
    (h : readFrom bs position (some ⟨first, taken, missing, low, high, value⟩) done = .ok t) :
    ∃ tail rest n position', bs = tail ++ rest ∧ Completes missing low high value tail n ∧
      readFrom rest position' none (.ofNat n :: done) = .ok t := by
  induction bs generalizing position taken missing low high value with
  | nil => cases h
  | cons b bs ih =>
    rw [readFrom] at h
    split at h
    next range =>
      cases missing with
      | zero => exact ⟨[b], bs, _, _, rfl, .last range rfl, h⟩
      | succ missing =>
        obtain ⟨tail, rest, n, position', rfl, completes, after⟩ := ih h
        exact ⟨b :: tail, rest, n, position', rfl, .more range completes, after⟩
    · cases h

/-! ## Characters -/

theorem isSurrogate_eq_false_iff {c : CodePoint} :
    c.isSurrogate = false ↔ c.val < 0xD800 ∨ 0xDFFF < c.val := by
  rw [CodePoint.isSurrogate, CodePoint.between, Bool.and_eq_false_iff, decide_eq_false_iff_not,
    decide_eq_false_iff_not, Nat.not_le, Nat.not_le]

/-- A character outside of ASCII is written as a first byte and what completes it. -/
theorem exists_completes {c : CodePoint} (scalar : c.isSurrogate = false) (h : 0x80 ≤ c.val) :
    ∃ b tail missing low high value, writePoint c = b :: tail ∧ 0x80 ≤ b.toNat ∧
      Sequence.start? b = some ⟨b, 1, missing, low, high, value⟩ ∧
      Completes missing low high value tail c.val := by
  have top := c.isLt
  rw [isSurrogate_eq_false_iff] at scalar
  have byte {n : Nat} (small : n < 256) : (UInt8.ofNat n).toNat = n :=
    UInt8.toNat_ofNat_of_lt' small
  have last := byte (n := 0x80 + c.val % 0x40) (by omega)
  unfold writePoint
  dsimp only
  rw [if_neg (by omega)]
  by_cases two : c.val < 0x800
  · have first := byte (n := 0xC0 + c.val / 0x40) (by omega)
    rw [if_pos two]
    exact ⟨_, _, _, _, _, _, rfl, by omega, start?_two (by omega), .last (by omega) (by omega)⟩
  rw [if_neg two]
  have before := byte (n := 0x80 + c.val / 0x40 % 0x40) (by omega)
  by_cases three : c.val < 0x10000
  · have first := byte (n := 0xE0 + c.val / 0x1000) (by omega)
    obtain ⟨low, high, start, range⟩ :=
      start?_three (b := UInt8.ofNat (0xE0 + c.val / 0x1000)) (by omega)
    rw [if_pos three]
    exact ⟨_, _, _, _, _, _, rfl, by omega, start,
      .more ((range _).mpr (by omega)) (.last (by omega) (by omega))⟩
  · have first := byte (n := 0xF0 + c.val / 0x40000) (by omega)
    have second := byte (n := 0x80 + c.val / 0x1000 % 0x40) (by omega)
    obtain ⟨low, high, start, range⟩ :=
      start?_four (b := UInt8.ofNat (0xF0 + c.val / 0x40000)) (by omega)
    rw [if_neg three]
    exact ⟨_, _, _, _, _, _, rfl, by omega, start,
      .more ((range _).mpr (by omega)) (.more (by omega) (.last (by omega) (by omega)))⟩

/-- A complete sequence is what is written of a character. -/
theorem writePoint_of_completes {first : UInt8} {taken missing low high value n : Nat}
    {tail : Bytes} (start : Sequence.start? b = some ⟨first, taken, missing, low, high, value⟩)
    (h : Completes missing low high value tail n) :
    (CodePoint.ofNat n).isSurrogate = false ∧ writePoint (.ofNat n) = b :: tail := by
  have byte {m : Nat} {b : UInt8} (eq : m = b.toNat) : UInt8.ofNat m = b := by
    rw [eq, UInt8.ofNat_toNat]
  rw [isSurrogate_eq_false_iff, writePoint]
  by_cases outside : b.toNat < 0xC2 ∨ 0xF5 ≤ b.toNat
  · rw [start?_eq_none outside] at start
    cases start
  by_cases two : b.toNat < 0xE0
  · rw [start?_two (by omega)] at start
    cases start
    cases h with
    | @last b1 _ _ _ _ range number =>
      rw [CodePoint.val_ofNat (by omega)]
      refine ⟨by omega, ?_⟩
      rw [if_neg (by omega), if_pos (by omega), byte (b := b) (by omega),
        byte (b := b1) (by omega)]
  by_cases three : b.toNat < 0xF0
  · obtain ⟨low, high, start', within⟩ := start?_three (b := b) (by omega)
    cases start.symm.trans start'
    cases h with
    | @more b1 _ _ _ _ _ tail range rest =>
    cases rest with
    | @last b2 _ _ _ _ range' number =>
      have second := (within _).mp range
      rw [CodePoint.val_ofNat (by omega)]
      refine ⟨by omega, ?_⟩
      rw [if_neg (by omega), if_neg (by omega), if_pos (by omega), byte (b := b) (by omega),
        byte (b := b1) (by omega), byte (b := b2) (by omega)]
  · obtain ⟨low, high, start', within⟩ := start?_four (b := b) (by omega)
    cases start.symm.trans start'
    cases h with
    | @more b1 _ _ _ _ _ tail range rest =>
    cases rest with
    | @more b2 _ _ _ _ _ tail range' rest =>
    cases rest with
    | @last b3 _ _ _ _ range'' number =>
      have second := (within _).mp range
      rw [CodePoint.val_ofNat (by omega)]
      refine ⟨by omega, ?_⟩
      rw [if_neg (by omega), if_neg (by omega), if_neg (by omega), byte (b := b) (by omega),
        byte (b := b1) (by omega), byte (b := b2) (by omega), byte (b := b3) (by omega)]

/-! ## Texts -/

theorem readFrom_writePoint {c : CodePoint} (scalar : c.isSurrogate = false) (rest : Bytes)
    (position : Nat) (done : Text) :
    readFrom (writePoint c ++ rest) position none done =
      readFrom rest (position + (writePoint c).length) none (c :: done) := by
  by_cases ascii : c.isAscii = true
  · have small : c.val < 0x80 := of_decide_eq_true ascii
    have byte : (UInt8.ofNat c.val).toNat = c.val :=
      UInt8.toNat_ofNat_of_lt' (Nat.lt_trans small (by decide))
    rw [writePoint_of_isAscii ascii, List.singleton_append, readFrom, byte, if_pos small,
      CodePoint.ofNat_val]
    rfl
  · have large : 0x80 ≤ c.val := Nat.not_lt.mp fun small => ascii (decide_eq_true small)
    obtain ⟨b, tail, _, _, _, _, bytes, high, start, completes⟩ := exists_completes scalar large
    rw [bytes, List.cons_append, readFrom, if_neg (by omega), start]
    dsimp only
    rw [readFrom_of_completes completes, CodePoint.ofNat_val, List.length_cons, Nat.add_assoc,
      Nat.add_comm 1]

theorem readFrom_write {t : Text} (scalar : t.IsScalar) (position : Nat) (done : Text) :
    readFrom (write t) position none done = .ok (done.reverse ++ t) := by
  induction t generalizing position done with
  | nil => simp [write, readFrom]
  | cons c t ih =>
    rw [write, List.flatMap_cons, ← write, readFrom_writePoint (scalar c List.mem_cons_self),
      ih fun d hd => scalar d (List.mem_cons_of_mem _ hd)]
    simp

/-- What is read stands behind what was read before, and is what the bytes were written from. -/
theorem exists_of_readFrom {bs : Bytes} {position : Nat} {done t : Text}
    (h : readFrom bs position none done = .ok t) :
    ∃ t', t = done.reverse ++ t' ∧ t'.IsScalar ∧ write t' = bs := by
  -- A sequence takes several bytes at once, so the induction is on how many are left.
  induction count : bs.length using Nat.strongRecOn generalizing bs position done with
  | ind count ih =>
    subst count
    have step {c : CodePoint} {rest : Bytes} {position : Nat} (scalar : c.isSurrogate = false)
        (bytes : writePoint c ++ rest = bs) (shorter : rest.length < bs.length)
        (after : readFrom rest position none (c :: done) = .ok t) :
        ∃ t', t = done.reverse ++ t' ∧ t'.IsScalar ∧ write t' = bs := by
      obtain ⟨t', rfl, scalar', rfl⟩ := ih _ shorter after rfl
      exact ⟨c :: t', by simp, List.forall_mem_cons.mpr ⟨scalar, scalar'⟩, bytes⟩
    cases bs with
    | nil =>
      cases h
      exact ⟨[], by simp, List.forall_mem_nil _, rfl⟩
    | cons b bs =>
      rw [readFrom] at h
      split at h
      next small =>
        have val : (CodePoint.ofNat b.toNat).val = b.toNat := CodePoint.val_ofNat (by omega)
        have ascii : (CodePoint.ofNat b.toNat).isAscii = true := by
          rw [CodePoint.isAscii, val, decide_eq_true small]
        refine step (isSurrogate_eq_false_iff.mpr (by omega)) ?_ (Nat.lt_succ_self _) h
        rw [writePoint_of_isAscii ascii, val, UInt8.ofNat_toNat, List.singleton_append]
      · split at h
        · cases h
        next s start =>
          obtain ⟨tail, rest, n, position', rfl, completes, after⟩ := completes_of_readFrom h
          obtain ⟨scalar, bytes⟩ := writePoint_of_completes start completes
          refine step scalar ?_ ?_ after
          · rw [bytes, List.cons_append]
          · rw [List.length_cons, List.length_append]
            omega

/-- Bytes are read as the one text of characters that they were written from, if there is one. -/
theorem read_eq_ok_iff {bs : Bytes} {t : Text} : read bs = .ok t ↔ t.IsScalar ∧ write t = bs := by
  constructor
  · intro h
    obtain ⟨t', rfl, scalar, bytes⟩ := exists_of_readFrom h
    exact ⟨scalar, bytes⟩
  · rintro ⟨scalar, rfl⟩
    exact readFrom_write scalar 0 []

/-- Two texts of characters are not written alike. -/
theorem write_inj {s t : Text} (hs : s.IsScalar) (ht : t.IsScalar) (h : write s = write t) :
    s = t :=
  Except.ok.inj ((read_eq_ok_iff.mpr ⟨hs, h⟩).symm.trans (read_eq_ok_iff.mpr ⟨ht, rfl⟩))

theorem length_write_of_isAscii {t : Text} (h : t.IsAscii) : (write t).length = t.length := by
  induction t with
  | nil => rfl
  | cons c t ih =>
    obtain ⟨first, others⟩ := List.forall_mem_cons.mp h
    rw [write, List.flatMap_cons, List.length_append, writePoint_of_isAscii first]
    rw [write] at ih
    rw [ih others, List.length_singleton, List.length_cons, Nat.add_comm]

theorem read_write_of_isAscii {t : Text} (h : t.IsAscii) : read (write t) = .ok t :=
  read_eq_ok_iff.mpr ⟨h.isScalar, rfl⟩

end PartRelay.Utf8
