import Mathlib.Algebra.Order.BigOperators.Group.List
import Mathlib.Algebra.Order.Ring.Nat
import Mathlib.Order.Bounds.Defs
import PartRelay.Proofs.Part.SplitParts

/-!
# Splitting loses nothing and wastes nothing

The parts that `split` gives hold the payload in order, all but the last are full, and no message
with fewer parts of the size could hold it.
-/

namespace PartRelay

/-! ## Full pieces -/

namespace Bytes

variable {size limit : Nat} {bs piece : Bytes}

/-- No piece is empty, and none is longer than `size`. -/
theorem length_of_mem_piecesUpTo (hs : 0 < size) (h : piece ∈ piecesUpTo size limit bs) :
    0 < piece.length ∧ piece.length ≤ size := by
  induction limit generalizing bs with
  | zero => cases h
  | succ limit ih =>
    cases bs with
    | nil => cases h
    | cons b bs =>
      rw [piecesUpTo] at h
      rcases List.mem_cons.mp h with rfl | later
      · rw [List.length_take, List.length_cons]
        omega
      · exact ih later

/-- A piece with another one behind it is full. -/
theorem length_of_piecesUpTo_getElem? {i : Nat} (h : (piecesUpTo size limit bs)[i]? = some piece)
    (more : i + 1 < (piecesUpTo size limit bs).length) : piece.length = size := by
  induction limit generalizing bs i with
  | zero => cases h
  | succ limit ih =>
    cases bs with
    | nil => cases h
    | cons b bs =>
      rw [piecesUpTo] at h more
      cases i with
      | succ i => exact ih h (Nat.lt_of_succ_lt_succ more)
      | zero =>
        cases h
        rw [List.length_take]
        -- Behind the first piece there is another only if the bytes did not end with it.
        by_cases last : (b :: bs).length ≤ size
        · rw [List.drop_of_length_le last] at more
          cases limit <;> simp [piecesUpTo] at more
        · omega

end Bytes

namespace Part

/-! ## What parts can hold -/

/-- Whether so many parts of a size can hold a payload between them. -/
def CanHold (size : Int) (n : Nat) (payload : Bytes) : Prop :=
  ∃ (first : Bytes) (rest : List Bytes), first ++ rest.flatten = payload ∧ rest.length + 1 = n ∧
    (first.length : Int) ≤ firstCapacity size ∧
      ∀ piece ∈ rest, (piece.length : Int) ≤ capacity size

/-- Nothing holds more than its room. -/
theorem length_le_of_canHold {size : Int} {n : Nat} {payload : Bytes}
    (h : CanHold size n payload) :
    payload.length ≤ (firstCapacity size).toNat + (n - 1) * (capacity size).toNat := by
  obtain ⟨first, rest, rfl, rfl, head, tail⟩ := h
  have bound : ∀ length ∈ rest.map List.length, length ≤ (capacity size).toNat := by
    intro length member
    obtain ⟨piece, isPiece, rfl⟩ := List.mem_map.mp member
    have fits := tail piece isPiece
    omega
  have total := List.sum_le_card_nsmul _ _ bound
  rw [List.length_map, Nat.nsmul_eq_mul] at total
  rw [List.length_append, List.length_flatten, Nat.add_sub_cancel]
  omega

/-! ## Partitions -/

/-- What it is for byte strings to be the parts of a message: they are read as `ps`, which have the
payload between them and are full but for the last. -/
structure IsPartition (parts : List Bytes) (payload : Bytes)
    (size messageId messageType timestampNs : Int) (ps : List Part) : Prop where
  parsed : parts.map parse = ps.map .ok
  sizes : ∀ bs ∈ parts, (bs.length : Int) = size
  first : ∃ contents, ps[0]? = some
    (.first { messageId, numParts := parts.length, messageType, timestampNs, contents })
  later : ∀ i, 1 ≤ i → i < ps.length → ∃ contents, contents ≠ [] ∧
    ps[i]? = some (.continuation { messageId, index := i, contents })
  contents : (ps.map Part.contents).flatten = payload
  full : ∀ i part, ps[i]? = some part → i + 1 < ps.length →
    (part.contents.length : Int) = part.room size

section Split

variable {memory : Memory} {payload : Bytes} {size messageId messageType timestampNs : Int}
  {parts : List Bytes}

/-- A payload that has been split was counted, at a size with room in every part. -/
theorem count_of_split
    (h : split memory payload size messageId messageType timestampNs = .ok parts) :
    0 < firstCapacity size ∧ count payload.length size = .ok parts.length := by
  have length := (areParts_of_split h).count
  rw [split] at h
  split at h
  · cases h
  next room =>
    split at h
    · cases h
    split at h
    · cases h
    next n counted =>
      have positive : 0 < firstCapacity size := Int.not_le.mp room
      obtain ⟨total, _⟩ := count_eq_ok positive counted
      have same : n = parts.length := by rw [total, length]
      exact ⟨positive, same ▸ counted⟩

/-- A piece with another one behind it is as long as the room for it. -/
theorem length_of_piecesOf_getElem? (room : 0 < firstCapacity size) {i : Nat} {piece : Bytes}
    (h : (piecesOf payload size)[i]? = some piece) (more : i + 1 < (piecesOf payload size).length) :
    (piece.length : Int) = if i = 0 then firstCapacity size else capacity size := by
  have positive := capacity_pos room
  rw [piecesOf] at h more
  cases i with
  | zero =>
    cases h
    have rest : Bytes.pieces (capacity size).toNat (payload.drop (firstCapacity size).toNat)
        ≠ [] := by
      intro none
      rw [none] at more
      exact Nat.lt_irrefl _ more
    have beyond : ¬ payload.length ≤ (firstCapacity size).toNat := by
      intro short
      rw [List.drop_of_length_le short] at rest
      exact rest rfl
    rw [List.length_take, if_pos rfl]
    omega
  | succ i =>
    rw [List.getElem?_cons_succ] at h
    have full := Bytes.length_of_piecesUpTo_getElem? h (Nat.lt_of_succ_lt_succ more)
    rw [full, if_neg (Nat.succ_ne_zero i), Int.toNat_of_nonneg (Int.le_of_lt positive)]

theorem ne_nil_of_piecesOf_getElem? (room : 0 < firstCapacity size) {i : Nat} {piece : Bytes}
    (later : 1 ≤ i) (h : (piecesOf payload size)[i]? = some piece) : piece ≠ [] := by
  have positive := capacity_pos room
  obtain ⟨i, rfl⟩ := Nat.exists_eq_succ_of_ne_zero (Nat.pos_iff_ne_zero.mp later)
  rw [piecesOf, List.getElem?_cons_succ] at h
  exact List.length_pos_iff.mp
    (Bytes.length_of_mem_piecesUpTo (by omega) (List.mem_of_getElem? h)).1

theorem canHold_piecesOf (room : 0 < firstCapacity size) :
    CanHold size (piecesOf payload size).length payload := by
  have positive := capacity_pos room
  refine ⟨payload.take (firstCapacity size).toNat, Bytes.pieces (capacity size).toNat
    (payload.drop (firstCapacity size).toNat), ?_, rfl, ?_, ?_⟩
  · rw [Bytes.flatten_pieces (by omega), List.take_append_drop]
  · rw [List.length_take]
    omega
  · intro piece member
    have short := (Bytes.length_of_mem_piecesUpTo (by omega) member).2
    omega

/-- Whatever holds a payload has at least as many parts as the payload has pieces. -/
theorem length_piecesOf_le (room : 0 < firstCapacity size) {n : Nat} (some : 1 ≤ n)
    (h : CanHold size n payload) : (piecesOf payload size).length ≤ n := by
  have positive := capacity_pos room
  have held := length_le_of_canHold h
  have bounds := @Bytes.length_pieces (capacity size).toNat (by omega)
    (payload.drop (firstCapacity size).toNat)
  rw [List.length_drop] at bounds
  rw [piecesOf, List.length_cons]
  generalize Bytes.pieces _ _ = pieces at bounds ⊢
  have next : n * (capacity size).toNat
      = (n - 1) * (capacity size).toNat + (capacity size).toNat := by
    rw [← Nat.succ_mul, Nat.succ_eq_add_one, Nat.sub_add_cancel some]
  have fewer : pieces.length * (capacity size).toNat < n * (capacity size).toNat := by omega
  exact Nat.lt_of_mul_lt_mul_right fewer

/-- The parts of the pieces are a partition. -/
theorem isPartition_of_split
    (h : split memory payload size messageId messageType timestampNs = .ok parts) :
    IsPartition parts payload size messageId messageType timestampNs
      ((List.range parts.length).map
        (ofPieces messageId messageType timestampNs (piecesOf payload size))) := by
  obtain ⟨room, _⟩ := count_of_split h
  have areParts := areParts_of_split h
  have pieceAt : ∀ {i}, i < parts.length → ∃ piece, (piecesOf payload size)[i]? = some piece := by
    intro i hi
    rw [areParts.count] at hi
    exact ⟨_, List.getElem?_eq_getElem hi⟩
  constructor
  case parsed =>
    refine List.ext_getElem (by simp) fun i hi _ => ?_
    rw [List.length_map] at hi
    simp [areParts.parsed i hi]
  case sizes => exact areParts.sizes
  case first =>
    rw [List.getElem?_map, List.getElem?_range areParts.length_pos, areParts.count]
    exact ⟨_, rfl⟩
  case later =>
    intro i positive hi
    rw [List.length_map, List.length_range] at hi
    obtain ⟨piece, at_i⟩ := pieceAt hi
    refine ⟨piece, ne_nil_of_piecesOf_getElem? room positive at_i, ?_⟩
    rw [List.getElem?_map, List.getElem?_range hi, Option.map_some, ofPieces,
      if_neg (Nat.pos_iff_ne_zero.mp positive), at_i]
    rfl
  case contents =>
    have contents : ((List.range parts.length).map (ofPieces messageId messageType timestampNs
        (piecesOf payload size))).map Part.contents = piecesOf payload size := by
      refine List.ext_getElem (by simp [areParts.count]) fun i _ hi => ?_
      simp [List.getElem?_eq_getElem hi]
    rw [contents, areParts.payload]
  case full =>
    intro i part at_i more
    rw [List.length_map, List.length_range] at more
    have hi : i < parts.length := Nat.lt_of_succ_lt more
    obtain ⟨piece, piece_i⟩ := pieceAt hi
    rw [List.getElem?_map, List.getElem?_range hi, Option.map_some] at at_i
    cases at_i
    rw [areParts.count] at more
    rw [contents_ofPieces, piece_i, Option.getD_some,
      length_of_piecesOf_getElem? room piece_i more, ofPieces]
    split <;> rfl

/-- The parts of a split message hold its payload in order, and are as many as were counted, which
is as few as can hold it. -/
theorem split_lossless_minimal
    (h : split memory payload size messageId messageType timestampNs = .ok parts) :
    (∃ ps, IsPartition parts payload size messageId messageType timestampNs ps) ∧
      count payload.length size = .ok parts.length ∧
      IsLeast {n | (1 ≤ n ∧ n ≤ maxParts) ∧ CanHold size n payload} parts.length := by
  obtain ⟨room, counted⟩ := count_of_split h
  have areParts := areParts_of_split h
  refine ⟨⟨_, isPartition_of_split h⟩, counted, ?_, ?_⟩
  · rw [areParts.count]
    exact ⟨areParts.bounds, canHold_piecesOf room⟩
  · rintro n ⟨⟨some, _⟩, held⟩
    rw [areParts.count]
    exact length_piecesOf_le room some held

end Split

/-- Three bytes at a size that leaves room for one in the first part. -/
theorem split_lossless_minimal_three :
    (∃ ps, IsPartition
      [[0, 0, 0, 9, 0, 0, 1, 2, 0, 0, 0, 5, 0, 0, 0, 0, 0, 0, 0, 8, 7, 0],
        [0, 0, 0, 9, 1, 0, 2, 7, 7, 0, 0, 0, 0, 0, 0, 0, 0, 0, 0, 0, 0, 0]]
      [7, 7, 7] 22 9 5 8 ps) ∧
      count 3 22 = .ok 2 ∧
      IsLeast {n | (1 ≤ n ∧ n ≤ maxParts) ∧ CanHold 22 n [7, 7, 7]} 2 :=
  @split_lossless_minimal .gigabyte _ _ _ _ _ _ (toOption_eq_some.mp (by decide +kernel))

end Part

end PartRelay
