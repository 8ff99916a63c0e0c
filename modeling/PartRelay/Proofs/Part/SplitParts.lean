import PartRelay.Part.Split
import PartRelay.Proofs.Part.ReadBack

/-!
# Parts of a split message

The parts that `split` gives are those of the payload's pieces, in order: as many as the first of
them says, and every one of the size that was asked for.
-/

namespace PartRelay

/-! ## Pieces -/

namespace Bytes

variable {size : Nat}

theorem flatten_piecesUpTo {limit : Nat} {bs : Bytes} (hs : 0 < size) (h : bs.length ≤ limit) :
    (piecesUpTo size limit bs).flatten = bs := by
  induction limit generalizing bs with
  | zero => simp [piecesUpTo, List.length_eq_zero_iff.mp (Nat.le_zero.mp h)]
  | succ limit ih =>
    cases bs with
    | nil => rfl
    | cons b bs =>
      have shorter : ((b :: bs).drop size).length ≤ limit := by
        rw [List.length_drop, List.length_cons]
        rw [List.length_cons] at h
        omega
      rw [piecesUpTo, List.flatten_cons, ih shorter, List.take_append_drop]

/-- The pieces hold all bytes, and only the last may hold less than `size`. -/
theorem length_piecesUpTo {limit : Nat} {bs : Bytes} (hs : 0 < size) (h : bs.length ≤ limit) :
    bs.length ≤ (piecesUpTo size limit bs).length * size ∧
      (piecesUpTo size limit bs).length * size < bs.length + size := by
  induction limit generalizing bs with
  | zero => simp [piecesUpTo, List.length_eq_zero_iff.mp (Nat.le_zero.mp h), hs]
  | succ limit ih =>
    cases bs with
    | nil => simp [piecesUpTo, hs]
    | cons b bs =>
      have length : ((b :: bs).drop size).length = bs.length + 1 - size := by
        rw [List.length_drop, List.length_cons]
      rw [List.length_cons] at h
      have rest := @ih ((b :: bs).drop size) (by omega)
      rw [length] at rest
      rw [piecesUpTo, List.length_cons, List.length_cons, Nat.succ_mul]
      by_cases last : bs.length + 1 ≤ size
      · have none : piecesUpTo size limit ((b :: bs).drop size) = [] := by
          rw [List.drop_of_length_le last]
          cases limit <;> rfl
        rw [none]
        simp
        omega
      · omega

theorem flatten_pieces (hs : 0 < size) (bs : Bytes) : (pieces size bs).flatten = bs :=
  flatten_piecesUpTo hs (Nat.le_refl _)

theorem length_pieces (hs : 0 < size) (bs : Bytes) :
    bs.length ≤ (pieces size bs).length * size ∧
      (pieces size bs).length * size < bs.length + size :=
  length_piecesUpTo hs (Nat.le_refl _)

end Bytes

namespace Part

/-! ## The parts of a list of pieces -/

/-- The part with index `i` of a message that is cut into `pieces`. -/
def ofPieces (messageId messageType timestampNs : Int) (pieces : List Bytes) (i : Nat) : Part :=
  if i = 0 then .first
    { messageId, numParts := pieces.length, messageType, timestampNs
      contents := (pieces[i]?).getD [] }
  else .continuation { messageId, index := i, contents := (pieces[i]?).getD [] }

section OfPieces

variable (messageId messageType timestampNs : Int) (pieces : List Bytes) (i : Nat)

@[simp] theorem messageId_ofPieces :
    (ofPieces messageId messageType timestampNs pieces i).messageId = messageId := by
  rw [ofPieces]
  split <;> rfl

@[simp] theorem index_ofPieces :
    (ofPieces messageId messageType timestampNs pieces i).index = i := by
  rw [ofPieces]
  split
  next zero => rw [zero]; rfl
  next => rfl

@[simp] theorem contents_ofPieces :
    (ofPieces messageId messageType timestampNs pieces i).contents = (pieces[i]?).getD [] := by
  rw [ofPieces]
  split <;> rfl

end OfPieces

/-! ## Splitting -/

/-- What it is for a list of byte strings to be the parts of a message. -/
structure AreParts (parts : List Bytes) (payload : Bytes)
    (size messageId messageType timestampNs : Int) (pieces : List Bytes) : Prop where
  payload : pieces.flatten = payload
  count : parts.length = pieces.length
  bounds : 1 ≤ pieces.length ∧ pieces.length ≤ maxParts
  sizes : ∀ bs ∈ parts, (bs.length : Int) = size
  parsed : ∀ i (h : i < parts.length),
    parse parts[i] = .ok (ofPieces messageId messageType timestampNs pieces i)

/-- There is always a part. -/
theorem AreParts.length_pos {parts pieces : List Bytes} {payload : Bytes}
    {size messageId messageType timestampNs : Int}
    (h : AreParts parts payload size messageId messageType timestampNs pieces) :
    0 < parts.length := h.count.symm ▸ h.bounds.1

/-- Every one of the parts is read as one of the pieces. -/
theorem AreParts.parse_of_mem {parts pieces : List Bytes} {payload : Bytes}
    {size messageId messageType timestampNs : Int}
    (h : AreParts parts payload size messageId messageType timestampNs pieces) {bs : Bytes}
    (among : bs ∈ parts) : ∃ i, parts[i]? = some bs ∧ i < pieces.length ∧
      parse bs = .ok (ofPieces messageId messageType timestampNs pieces i) ∧
      (ofPieces messageId messageType timestampNs pieces i).index < maxParts := by
  obtain ⟨i, hi, eq⟩ := List.getElem_of_mem among
  have below : i < pieces.length := h.count ▸ hi
  have few : pieces.length ≤ maxParts := h.bounds.2
  refine ⟨i, ?_, below, eq ▸ h.parsed i hi, ?_⟩
  · rw [List.getElem?_eq_getElem hi, eq]
  · rw [index_ofPieces]
    omega

/-- The pieces of a payload: what fits into the first part, then what fits into a continuation, as
often as it takes. -/
def piecesOf (payload : Bytes) (size : Int) : List Bytes :=
  payload.take (firstCapacity size).toNat ::
    Bytes.pieces (capacity size).toNat (payload.drop (firstCapacity size).toNat)

theorem capacity_pos {size : Int} (h : 0 < firstCapacity size) : 0 < capacity size := by
  rw [firstCapacity, firstHeaderLength, headerLength] at h
  rw [capacity, headerLength]
  omega

/-- The continuations hold between them what does not fit into the first part, and one fewer would
not. -/
theorem length_piecesOf {payload : Bytes} {size : Int} (hs : 0 < firstCapacity size) :
    ∃ more : Nat, (piecesOf payload size).length = more + 1 ∧
      payload.length - firstCapacity size ≤ more * capacity size ∧
        (more = 0 ∨ (more - 1) * capacity size < payload.length - firstCapacity size) := by
  have room := capacity_pos hs
  have bounds := @Bytes.length_pieces (capacity size).toNat (by omega)
    (payload.drop (firstCapacity size).toNat)
  rw [List.length_drop] at bounds
  rw [piecesOf, List.length_cons]
  -- Only the number of the pieces matters from here on, and `bounds` has it between two multiples.
  generalize Bytes.pieces _ _ = pieces at bounds ⊢
  have cast : ((pieces.length * (capacity size).toNat : Nat) : Int)
      = pieces.length * capacity size := by
    rw [Int.natCast_mul, Int.toNat_of_nonneg (by omega)]
  refine ⟨pieces.length, rfl, by omega, ?_⟩
  by_cases none : pieces.length = 0
  · exact .inl none
  · have some : 1 * (capacity size).toNat ≤ pieces.length * (capacity size).toNat :=
      Nat.mul_le_mul_right _ (Nat.pos_iff_ne_zero.mpr none)
    rw [Int.sub_mul, Int.one_mul]
    exact .inr (by omega)

/-- The number of parts is that of the pieces, unless those are too many. -/
theorem count_eq {payload : Bytes} {size : Int} (hs : 0 < firstCapacity size) :
    count payload.length size =
      if (piecesOf payload size).length ≤ maxParts then .ok (piecesOf payload size).length
      else .error (.ofError (.tooManyParts (piecesOf payload size).length)) := by
  have room := capacity_pos hs
  obtain ⟨more, length, enough, least⟩ := @length_piecesOf payload size hs
  rw [length, count]
  split
  next short =>
    have none : more = 0 := Decidable.byContradiction fun some => by
      have spare : 0 ≤ ((more : Int) - 1) * capacity size :=
        Int.mul_nonneg (by omega) (by omega)
      have beyond := least.resolve_left some
      omega
    rw [none]
    rfl
  next long =>
    have quotient : Int.fdiv (firstCapacity size - payload.length) (capacity size)
        = -(more : Int) := by
      have some : more ≠ 0 := by
        rintro rfl
        omega
      have below := least.resolve_left some
      rw [Int.sub_mul, Int.one_mul] at below
      rw [Int.fdiv_eq_ediv_of_nonneg _ (by omega), Int.ediv_eq_iff_of_pos room, Int.neg_mul]
      omega
    have total : (1 : Int) - -(more : Int) = ((more + 1 : Nat) : Int) := by omega
    rw [if_neg (by omega)]
    simp only [quotient, total]
    by_cases few : more + 1 ≤ maxParts
    · rw [if_pos few, if_neg (by omega)]
    · rw [if_neg few, if_pos (by omega)]

theorem count_eq_ok {payload : Bytes} {size n : Int} (hs : 0 < firstCapacity size)
    (h : count payload.length size = .ok n) :
    n = (piecesOf payload size).length ∧ n ≤ maxParts := by
  rw [count_eq hs] at h
  split at h
  next few =>
    cases h
    exact ⟨rfl, Int.ofNat_le.mpr few⟩
  next => cases h

section Split

variable {memory : Memory} {payload : Bytes} {size messageId messageType timestampNs : Int}
  {parts : List Bytes}

theorem encodeRest_eq_ok {index : Nat} {pieces : List Bytes}
    (h : encodeRest memory size messageId index pieces = .ok parts) :
    parts.length = pieces.length ∧ (∀ bs ∈ parts, (bs.length : Int) = size) ∧
      ∀ i (hi : i < parts.length), parse parts[i]
        = .ok (.continuation ⟨messageId, (index + i : Nat), (pieces[i]?).getD []⟩) := by
  induction pieces generalizing index parts with
  | nil =>
    cases h
    simp
  | cons piece pieces ih =>
    rw [encodeRest] at h
    split at h
    · cases h
    next bs encoded =>
      obtain ⟨size, parsed⟩ := @parse_encode _ (.continuation _) _ _ encoded
      obtain ⟨rest, more, rfl⟩ := map_eq_ok.mp h
      obtain ⟨count, sizes, later⟩ := ih more
      refine ⟨by simp [count], ?_, ?_⟩
      · rintro bs (_ | ⟨_, hbs⟩)
        · exact size
        · exact sizes _ hbs
      · intro i hi
        cases i with
        | zero => exact parsed
        | succ i =>
          have place : index + (i + 1) = index + 1 + i := by omega
          rw [List.getElem_cons_succ, later i (by simpa using hi), List.getElem?_cons_succ, place]

theorem areParts_of_split
    (h : split memory payload size messageId messageType timestampNs = .ok parts) :
    AreParts parts payload size messageId messageType timestampNs (piecesOf payload size) := by
  rw [split] at h
  split at h
  · cases h
  next room =>
    split at h
    · cases h
    split at h
    · cases h
    next n counted =>
      obtain ⟨total, limit⟩ := count_eq_ok (by omega) counted
      simp only at h
      split at h
      · cases h
      next bs encoded =>
        obtain ⟨length, parsed⟩ := @parse_encode _ (.first _) _ _ encoded
        obtain ⟨rest, more, rfl⟩ := map_eq_ok.mp h
        obtain ⟨count, sizes, later⟩ := encodeRest_eq_ok more
        have positive := capacity_pos (Int.not_le.mp room)
        have flat : (Bytes.pieces (capacity size).toNat
            (payload.drop (firstCapacity size).toNat)).flatten
              = payload.drop (firstCapacity size).toNat :=
          Bytes.flatten_pieces (by omega) _
        rw [piecesOf, List.length_cons] at total
        rw [piecesOf]
        generalize Bytes.pieces _ _ = pieces at total count later flat ⊢
        refine ⟨?_, by simp [count], ?_, ?_, ?_⟩
        · rw [List.flatten_cons, flat, List.take_append_drop]
        · rw [List.length_cons]
          omega
        · rintro bs (_ | ⟨_, hbs⟩)
          · exact length
          · exact sizes _ hbs
        · intro i hi
          cases i with
          | zero =>
            rw [List.getElem_cons_zero, parsed, total]
            rfl
          | succ i =>
            rw [List.getElem_cons_succ, later i (by simpa using hi), ofPieces,
              if_neg (Nat.succ_ne_zero i), List.getElem?_cons_succ, Nat.add_comm 1 i]

theorem split_eq_ok
    (h : split memory payload size messageId messageType timestampNs = .ok parts) :
    ∃ pieces, AreParts parts payload size messageId messageType timestampNs pieces :=
  ⟨_, areParts_of_split h⟩

/-- A size that a payload has been split at is one that there is memory for. -/
theorem size_le_of_split
    (h : split memory payload size messageId messageType timestampNs = .ok parts) :
    0 < size ∧ size ≤ memory.size := by
  rw [split] at h
  split at h
  · cases h
  · split at h
    · cases h
    split at h
    · cases h
    simp only at h
    split at h
    · cases h
    next bs encoded =>
      obtain ⟨⟨_, _, fits⟩, room, _⟩ := (@encode_eq_ok_iff _ (.first _) _ _).mp encoded
      rw [room_eq, offset] at fits
      omega

end Split

end Part

end PartRelay
