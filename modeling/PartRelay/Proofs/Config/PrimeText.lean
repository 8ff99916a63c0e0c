import Mathlib.Logic.Relation
import PartRelay.Config.Network
import PartRelay.Proofs.Bytes.HexText
import PartRelay.Proofs.Part.Limits
import PartRelay.Proofs.Results
import PartRelay.Reassembly.Reassembler
import PartRelay.Text.Case

/-!
# Part sizes and the text of a prime

A definition has a part size just where the digits of its prime are hexadecimal and make up enough
whole bytes. The size follows from how many digits there are: blanks, letter case and the mark
before the digits have no say in it. Whatever the size, a reassembler can be set up with it and
there is room for contents in a first part.
-/

namespace PartRelay

/-! ## Small letters -/

namespace CodePoint

theorem val_lower (c : CodePoint) : c.lower.val =
    if 0x41 ≤ c.val ∧ c.val ≤ 0x5A then c.val + 0x20
    else if c.val = 0x212A then 0x6B else c.val := by
  simp only [lower, between, Bool.and_eq_true, decide_eq_true_eq]
  split
  · rw [val_ofNat (by omega)]
  · split <;> rfl

/-- No letter is a blank, so that none is made or lost. -/
theorem isBlank_lower (c : CodePoint) : c.lower.isBlank = c.isBlank := by
  rw [Bool.eq_iff_iff]
  simp only [isBlank, between, Bool.or_eq_true, Bool.and_eq_true, decide_eq_true_eq, beq_iff_eq,
    val_lower]
  split_ifs <;> omega

theorem hexValue?_lower (c : CodePoint) : c.lower.hexValue? = c.hexValue? := by
  simp only [hexValue?, isDigit, between, Bool.and_eq_true, decide_eq_true_eq, val_lower]
  split_ifs <;> first | omega | congr 1

end CodePoint

namespace Text

theorem withoutBlanks_lower (t : Text) : t.lower.withoutBlanks = t.withoutBlanks.lower := by
  simp only [withoutBlanks, lower, List.filter_map, Function.comp_def, CodePoint.isBlank_lower]

theorem length_lower (t : Text) : t.lower.length = t.length := List.length_map _

end Text

theorem Hex.readPairs?_lower (t : Text) (done : Bytes) :
    readPairs? t.lower done = readPairs? t done := by
  fun_induction readPairs? t done with
  | case1 done => rfl
  | case2 c done => rfl
  | case3 high low t done h l second first ih =>
    simp only [Text.lower, List.map_cons, readPairs?, CodePoint.hexValue?_lower, first, second]
    exact ih
  | case4 high low t done unlike =>
    simp only [Text.lower, List.map_cons, readPairs?, CodePoint.hexValue?_lower]

theorem Hex.spells_lower_iff {t : Text} {bs : Bytes} : Spells t.lower bs ↔ Spells t bs := by
  rw [spells_iff, spells_iff, readPairs?_lower]

namespace Network

/-! ## Sizes -/

/-- The size of a part in the network. -/
def partSize (n : Network) : Except FormatError Int := n.geometry.map MessageGeometry.contentsSize

/-- Digits that write a prime of a sufficient length. -/
structure IsPrime (digits : Text) : Prop where
  hex : ∀ c ∈ digits, c ∈ Hex.digits
  even : digits.length % 2 = 0
  long : 194 ≤ digits.length

variable {n : Network} {size : Int} {bs : Bytes}

theorem prime_eq_ok_iff : n.prime = .ok bs ↔ n.digits ≠ [] ∧ Hex.Spells n.digits bs := by
  rw [prime]
  split
  next none =>
    rw [List.isEmpty_iff] at none
    simp [none]
  next some =>
    rw [List.isEmpty_iff] at some
    rw [mapError_eq_ok, Hex.read_eq_ok_iff, and_iff_right some]

theorem partSize_eq_ok_iff :
    n.partSize = .ok size ↔
      ∃ bs, n.prime = .ok bs ∧ 97 ≤ bs.length ∧ size = 2 * bs.length - 98 := by
  have least : MessageGeometry.minPrimeSize = 97 := rfl
  have contents (k : Int) : MessageGeometry.contentsSize ⟨k⟩ = 2 * k - 97 - 1 := rfl
  rw [partSize, map_eq_ok, geometry]
  cases n.prime with
  | error e => simp
  | ok bs =>
    simp only [MessageGeometry.create, least]
    constructor
    · rintro ⟨g, created, rfl⟩
      split at created
      · cases created
      · cases created
        rw [contents]
        exact ⟨bs, rfl, by omega, by omega⟩
    · rintro ⟨_, ⟨⟩, long, rfl⟩
      rw [if_neg (by omega)]
      exact ⟨_, rfl, by rw [contents]; omega⟩

theorem IsPrime.exists_prime (h : IsPrime n.digits) :
    ∃ bs, n.prime = .ok bs ∧ Hex.Spells n.digits bs := by
  obtain ⟨bs, spells⟩ := Hex.exists_spells n.digits h.hex h.even
  refine ⟨bs, prime_eq_ok_iff.mpr ⟨?_, spells⟩, spells⟩
  rw [← List.length_pos_iff]
  have long := h.long
  omega

/-- There is a size just where the digits write a prime, and it follows from their number. -/
theorem partSize_eq_ok_iff_isPrime :
    n.partSize = .ok size ↔ IsPrime n.digits ∧ size = n.digits.length - 98 := by
  rw [partSize_eq_ok_iff]
  constructor
  · rintro ⟨bs, read, long, rfl⟩
    have spells := (prime_eq_ok_iff.mp read).2
    have length := spells.length_eq
    exact ⟨⟨spells.mem_digits, by omega, by omega⟩, by omega⟩
  · rintro ⟨h, rfl⟩
    obtain ⟨bs, read, spells⟩ := h.exists_prime
    have length := spells.length_eq
    have long := h.long
    exact ⟨bs, read, by omega, by omega⟩

/-! ## Refusals -/

/-- What is wrong with digits that write no prime. Of several faults a foreign code point is named
first, then an odd number of digits. -/
inductive IsFault : Text → FormatError → Prop where
  | empty : IsFault [] .emptyPrime
  | notAscii {digits : Text} {c : CodePoint} (h : c ∈ digits) (foreign : c.isAscii = false) :
      IsFault digits (.badHex .notAscii)
  | oddLength {digits : Text} (ascii : ∀ c ∈ digits, c.isAscii = true)
      (odd : digits.length % 2 = 1) : IsFault digits (.badHex .oddLength)
  | notADigit {digits : Text} {c : CodePoint} (ascii : ∀ c ∈ digits, c.isAscii = true)
      (even : digits.length % 2 = 0) (h : c ∈ digits) (other : c ∉ Hex.digits) :
      IsFault digits (.badHex .notADigit)
  | short {digits : Text} (some : digits ≠ []) (hex : ∀ c ∈ digits, c ∈ Hex.digits)
      (even : digits.length % 2 = 0) (short : digits.length < 194) :
      IsFault digits (.primeTooShort (digits.length / 2))

theorem isFault_of_read {digits : Text} {cause : Hex.ReadError}
    (h : Hex.read digits = .error cause) : IsFault digits (.badHex cause) := by
  rw [Hex.read] at h
  split at h
  next foreign =>
    cases h
    simp only [Bool.not_eq_true', List.all_eq_false, Bool.not_eq_true] at foreign
    obtain ⟨c, member, foreign⟩ := foreign
    exact .notAscii member foreign
  next ascii =>
    rw [Bool.not_eq_true', Bool.not_eq_false, List.all_eq_true] at ascii
    split at h
    next odd =>
      cases h
      exact .oddLength ascii odd
    next even =>
      have even : digits.length % 2 = 0 := by omega
      split at h
      · cases h
      next unread =>
        cases h
        -- Digits throughout, an even number of them, would have been read.
        by_contra none
        have hex : ∀ c ∈ digits, c ∈ Hex.digits := by
          intro c member
          by_contra other
          exact none (.notADigit ascii even member other)
        obtain ⟨bs, spells⟩ := Hex.exists_spells digits hex even
        rw [Hex.spells_iff, unread] at spells
        cases spells

theorem isFault_of_partSize {e : FormatError} (h : n.partSize = .error e) :
    IsFault n.digits e := by
  rw [partSize, geometry] at h
  cases read : n.prime with
  | error cause =>
    rw [read] at h
    cases h
    rw [prime] at read
    split at read
    next none =>
      cases read
      rw [List.isEmpty_iff.mp none]
      exact .empty
    next some =>
      obtain ⟨cause, unread, rfl⟩ := mapError_eq_error.mp read
      exact isFault_of_read unread
  | ok bs =>
    obtain ⟨some, spells⟩ := prime_eq_ok_iff.mp read
    have length := spells.length_eq
    simp only [read, MessageGeometry.create] at h
    split at h
    next short =>
      cases h
      have fewer : bs.length < 97 := Int.ofNat_lt.mp short
      rw [show (bs.length : Int) = (n.digits.length / 2 : Nat) by omega]
      exact .short some spells.mem_digits (by omega) (by omega)
    next => cases h

/-- Digits that write no prime are refused, and it is said why. -/
theorem exists_isFault (h : ¬ IsPrime n.digits) : ∃ e, n.partSize = .error e ∧
    IsFault n.digits e := by
  cases result : n.partSize with
  | ok size => exact absurd (partSize_eq_ok_iff_isPrime.mp result).1 h
  | error e => exact ⟨e, rfl, isFault_of_partSize result⟩

/-! ## Other spellings -/

/-- One change to the text of a prime that is none to its digits. -/
inductive Respells : Text → Text → Prop where
  /-- A blank more, wherever it stands. -/
  | blank (before after : Text) {c : CodePoint} (h : c.isBlank = true) :
      Respells (before ++ after) (before ++ c :: after)
  /-- Other letter cases. -/
  | case {t t' : Text} (h : t'.lower = t.lower) : Respells t t'
  /-- The mark before digits that stand without one. Blanks may come first. -/
  | mark {blanks t : Text} {x : CodePoint} (margin : ∀ c ∈ blanks, c.isBlank = true)
      (hx : x = CodePoint.ofChar 'x' ∨ x = CodePoint.ofChar 'X')
      (bare : (Network.mk t).digits = t.withoutBlanks) :
      Respells (blanks ++ t) (blanks ++ CodePoint.ofChar '0' :: x :: t)

/-- The mark is one in either case. -/
theorem digits_lower (t : Text) : (Network.mk t.lower).digits = (Network.mk t).digits.lower := by
  simp only [digits, Text.withoutBlanks_lower]
  rcases t.withoutBlanks with _ | ⟨z, _ | ⟨x, u⟩⟩
  · rfl
  · rfl
  · have zero : z.lower = CodePoint.ofChar '0' ↔ z = CodePoint.ofChar '0' := by
      simp only [CodePoint.ext_iff, CodePoint.val_lower, CodePoint.val_ofChar]
      split_ifs <;> simp <;> omega
    have ex : (x.lower = CodePoint.ofChar 'x' ∨ x.lower = CodePoint.ofChar 'X') ↔
        (x = CodePoint.ofChar 'x' ∨ x = CodePoint.ofChar 'X') := by
      simp only [CodePoint.ext_iff, CodePoint.val_lower, CodePoint.val_ofChar]
      split_ifs <;> simp <;> omega
    simp only [Text.lower, List.map_cons, Bool.and_eq_true, Bool.or_eq_true, decide_eq_true_eq,
      zero, ex]
    split <;> rfl

theorem Respells.digits_lower {t t' : Text} (h : Respells t t') :
    (Network.mk t').digits.lower = (Network.mk t).digits.lower := by
  cases h with
  | @blank before after c blank =>
    have same : Text.withoutBlanks (before ++ c :: after) =
        Text.withoutBlanks (before ++ after) := by
      simp [Text.withoutBlanks, blank]
    rw [digits, digits, same]
  | case lower => rw [← Network.digits_lower, ← Network.digits_lower, lower]
  | @mark blanks t x margin hx bare =>
    have none : Text.withoutBlanks blanks = [] := by
      simpa [Text.withoutBlanks] using margin
    have behind (s : Text) : Text.withoutBlanks (blanks ++ s) = s.withoutBlanks := by
      rw [Text.withoutBlanks, List.filter_append, ← Text.withoutBlanks, none, List.nil_append,
        Text.withoutBlanks]
    have plain : (CodePoint.ofChar '0').isBlank = false ∧ x.isBlank = false := by
      rcases hx with rfl | rfl <;> decide
    have marked : Text.withoutBlanks (CodePoint.ofChar '0' :: x :: t) =
        CodePoint.ofChar '0' :: x :: t.withoutBlanks := by
      simp [Text.withoutBlanks, plain]
    have bare' : (Network.mk (blanks ++ t)).digits = t.withoutBlanks := by
      rw [← bare, digits, digits, behind]
    rw [bare', digits, behind, marked]
    simp [hx]

/-- The prime and the size are those of any other spelling. -/
theorem congr_of_respells {t t' : Text} (h : Relation.ReflTransGen Respells t t') :
    (∀ bs, (Network.mk t').prime = .ok bs ↔ (Network.mk t).prime = .ok bs) ∧
      ∀ size, (Network.mk t').partSize = .ok size ↔ (Network.mk t).partSize = .ok size := by
  have digits : (Network.mk t').digits.lower = (Network.mk t).digits.lower := by
    induction h with
    | refl => rfl
    | tail _ step ih => exact step.digits_lower.trans ih
  have prime (bs : Bytes) : (Network.mk t').prime = .ok bs ↔ (Network.mk t).prime = .ok bs := by
    have length := congrArg List.length digits
    rw [Text.length_lower, Text.length_lower] at length
    rw [prime_eq_ok_iff, prime_eq_ok_iff, ← Hex.spells_lower_iff, digits, Hex.spells_lower_iff,
      ← List.length_pos_iff, length, List.length_pos_iff]
  exact ⟨prime, fun size => by simp only [partSize_eq_ok_iff, prime]⟩

/-! ## What a size is good for -/

theorem exists_reassembler (root : View) {ttlMs : Int} (room : 0 < Part.firstCapacity size)
    (positive : 0 < ttlMs) : ∃ r, Reassembly.Reassembler.create root size ttlMs = .ok r := by
  have child : ∃ view, root.child Reassembly.viewName = .ok view := ⟨_, if_neg (by decide)⟩
  obtain ⟨view, below⟩ := child
  have more := Part.firstCapacity_pos.mp room
  rw [Reassembly.Reassembler.create, if_neg (Int.not_le.mpr more),
    if_neg (Int.not_le.mpr positive), below]
  exact ⟨_, rfl⟩

/-- The text of a prime has a size just where its digits are hexadecimal, an even number of them and
at least 194: two for each byte of the prime. Otherwise it is refused, and it is said why. Other
spellings of the text are no other primes. With every size a reassembler can be set up and a first
part has room for contents. -/
theorem prime_text_decides (n : Network) :
    (∀ size, n.partSize = .ok size ↔ IsPrime n.digits ∧ size = n.digits.length - 98) ∧
    (IsPrime n.digits → ∃ bs, n.prime = .ok bs ∧ Hex.Spells n.digits bs) ∧
    (¬ IsPrime n.digits → ∃ e, n.partSize = .error e ∧ IsFault n.digits e) ∧
    (∀ t, Relation.ReflTransGen Respells n.primeHex t →
      (∀ bs, (Network.mk t).prime = .ok bs ↔ n.prime = .ok bs) ∧
        ∀ size, (Network.mk t).partSize = .ok size ↔ n.partSize = .ok size) ∧
    ∀ size, n.partSize = .ok size →
      96 ≤ size ∧
      (∀ (root : View) (ttlMs : Int), 0 < ttlMs →
        ∃ r, Reassembly.Reassembler.create root size ttlMs = .ok r) ∧
      0 < Part.firstCapacity size ∧
      ∀ (memory : Memory) (payload : Bytes) (messageId messageType timestampNs n : Int),
        Part.split memory payload size messageId messageType timestampNs
          ≠ .error (.part (.noRoom n)) := by
  refine ⟨fun size => partSize_eq_ok_iff_isPrime, IsPrime.exists_prime, exists_isFault,
    fun t spelling => congr_of_respells spelling, fun size given => ?_⟩
  obtain ⟨isPrime, rfl⟩ := partSize_eq_ok_iff_isPrime.mp given
  have long := isPrime.long
  have room : 0 < Part.firstCapacity (n.digits.length - 98) := by
    rw [Part.firstCapacity_pos, Part.firstHeaderLength, Part.headerLength]
    omega
  exact ⟨by omega, fun root ttlMs positive => exists_reassembler root room positive, room,
    fun memory payload messageId messageType timestampNs n => Part.split_ne_noRoom room n⟩

/-- Capital digits with a mark, and a blank inside of it, are those of the small digits alone. -/
theorem prime_text_decides_spaced :
    (Network.mk (CodePoint.ofChar '0' :: CodePoint.ofChar ' ' :: CodePoint.ofChar 'X' ::
      List.replicate 194 (CodePoint.ofChar 'F'))).partSize = .ok 96 := by
  have digits : (Network.mk (List.replicate 194 (CodePoint.ofChar 'f'))).digits =
      List.replicate 194 (CodePoint.ofChar 'f') := by decide +kernel
  have isPrime : IsPrime (List.replicate 194 (CodePoint.ofChar 'f')) := by
    constructor
    · intro c member
      rw [List.eq_of_mem_replicate member]
      decide
    · rw [List.length_replicate]
    · rw [List.length_replicate]
  obtain ⟨sized, _, _, respelled, _⟩ :=
    prime_text_decides ⟨List.replicate 194 (CodePoint.ofChar 'f')⟩
  rw [digits, List.length_replicate] at sized
  have capitals : Respells (List.replicate 194 (CodePoint.ofChar 'f'))
      (List.replicate 194 (CodePoint.ofChar 'F')) := .case (by decide +kernel)
  have marked := @Respells.mark [] (List.replicate 194 (CodePoint.ofChar 'F')) _
    (List.forall_mem_nil _) (.inr rfl) (by decide +kernel)
  have spaced := @Respells.blank [CodePoint.ofChar '0'] (CodePoint.ofChar 'X' ::
    List.replicate 194 (CodePoint.ofChar 'F')) (CodePoint.ofChar ' ') (by decide)
  exact ((respelled _ (((Relation.ReflTransGen.single capitals).tail marked).tail spaced)).2 96).mpr
    ((sized 96).mpr ⟨isPrime, rfl⟩)

end Network

end PartRelay
