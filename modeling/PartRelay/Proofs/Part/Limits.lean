import PartRelay.Proofs.Part.Canonical
import PartRelay.Proofs.Part.Partition
import PartRelay.Proofs.Text.Numerals

/-!
# What can be split

A payload within the limits of a part size is split, save where the contents of a part are longer
than its header can say or memory has no room for a part. Outside the limits it is refused as no
message of that size.
-/

namespace PartRelay

namespace Bytes

/-- Some piece is so long just where the first one is. -/
theorem exists_long_piece {size length : Nat} {bs : Bytes} (hs : 0 < size) (positive : 0 < length) :
    (∃ piece ∈ pieces size bs, length ≤ piece.length) ↔ length ≤ min bs.length size := by
  constructor
  · rintro ⟨piece, member, long⟩
    have short := (length_of_mem_piecesUpTo hs member).2
    have inside := (List.sublist_flatten_of_mem member).length_le
    rw [flatten_pieces hs] at inside
    omega
  · intro long
    cases bs with
    | nil =>
      rw [List.length_nil] at long
      omega
    | cons b bs =>
      refine ⟨_, List.mem_cons_self, ?_⟩
      rw [List.length_take]
      omega

theorem length_piecesUpTo_le (size limit : Nat) (bs : Bytes) :
    (piecesUpTo size limit bs).length ≤ limit := by
  induction limit generalizing bs with
  | zero => exact Nat.le_refl 0
  | succ limit ih =>
    cases bs with
    | nil => exact Nat.zero_le _
    | cons b bs => exact Nat.succ_le_succ (ih _)

end Bytes

namespace Part

/-! ## Limits -/

/-- What can be a message in parts of a size. -/
structure WithinLimits (payload : Bytes) (size messageId messageType timestampNs : Int) : Prop where
  room : firstHeaderLength < size
  messageId : 0 ≤ messageId ∧ messageId < 0x100000000
  messageType : 0 ≤ messageType ∧ messageType < 0x100000000
  timestampNs : 0 ≤ timestampNs ∧ timestampNs < 0x10000000000000000
  length : payload.length ≤ maxPayload size

/-- Whether the first part is to hold more bytes than its header can say. -/
def FirstOverflows (payloadLength size : Int) : Prop :=
  0xFFFF < min payloadLength (firstCapacity size)

/-- Whether the first part, or the one behind it, is to hold more bytes than its header can say. -/
def Overflows (payloadLength size : Int) : Prop :=
  FirstOverflows payloadLength size ∨
    0xFFFF < min (payloadLength - firstCapacity size) (capacity size)

instance (payloadLength size : Int) : Decidable (FirstOverflows payloadLength size) :=
  inferInstanceAs (Decidable (_ < _))

instance (payloadLength size : Int) : Decidable (Overflows payloadLength size) :=
  inferInstanceAs (Decidable (_ ∨ _))

section Pieces

variable {payload : Bytes} {size : Int}

theorem firstCapacity_pos : 0 < firstCapacity size ↔ firstHeaderLength < size := by
  rw [firstCapacity]
  omega

/-- There are few enough pieces just where the payload fits into a message. -/
theorem length_piecesOf_le_maxParts (room : 0 < firstCapacity size) :
    (piecesOf payload size).length ≤ maxParts ↔ payload.length ≤ maxPayload size := by
  have positive := capacity_pos room
  obtain ⟨more, length, enough, least⟩ := @length_piecesOf payload size room
  rw [length, maxPayload, maxParts]
  constructor
  · intro few
    have most : (more : Int) * capacity size ≤ (255 - 1) * capacity size :=
      Int.mul_le_mul_of_nonneg_right (by omega) (Int.le_of_lt positive)
    omega
  · intro fits
    rcases least with none | below
    · omega
    · have fewer : ((more : Int) - 1) * capacity size < (255 - 1) * capacity size := by omega
      have bound := Int.lt_of_mul_lt_mul_right fewer (Int.le_of_lt positive)
      omega

theorem exists_overlong_piece (room : 0 < firstCapacity size) :
    (∃ piece ∈ piecesOf payload size, 0x10000 ≤ piece.length) ↔
      Overflows payload.length size := by
  have positive := capacity_pos room
  have rest := @Bytes.exists_long_piece (capacity size).toNat 0x10000
    (payload.drop (firstCapacity size).toNat) (by omega) (by decide)
  rw [List.length_drop] at rest
  rw [piecesOf, List.exists_mem_cons_iff, rest, List.length_take, Overflows,
    FirstOverflows]
  omega

end Pieces

/-! ## Parts that are not written -/

theorem encodeHeader_eq_length {messageId index length : Int}
    (id : 0 ≤ messageId ∧ messageId < 0x100000000) (long : 0x10000 ≤ length) :
    encodeHeader messageId index length = .error .length := by
  have overflow : fitsBits 16 length = false := by
    rw [← Bool.not_eq_true, fitsBits_16]
    omega
  rw [encodeHeader, if_neg (by simp [fitsBits_64]; omega), if_neg (by simp [fitsBits_32, id]),
    if_pos (by simp [overflow])]

/-- A part that would fit but for its contents, which are longer than its header can say. -/
theorem encode_eq_header_length {memory : Memory} {part : Part} {size : Int}
    (bounds : part.InBounds) (long : 0x10000 ≤ part.contents.length)
    (fits : part.contents.length ≤ part.room size) :
    encode memory part size = .error (.header .length) := by
  obtain ⟨id, index, own, later⟩ := bounds
  cases part with
  | first p =>
    obtain ⟨count, type, time⟩ := own p rfl
    replace id : 0 ≤ p.messageId ∧ p.messageId < 0x100000000 := id
    replace long : 0x10000 ≤ p.contents.length := long
    replace fits : p.contents.length ≤ firstCapacity size := fits
    show encodeFirst memory p size = _
    rw [encodeFirst, if_neg (Int.not_lt.mpr fits), if_neg (by rw [maxParts]; omega),
      if_neg (by simp [fitsBits_32, type]), if_neg (by simp [fitsBits_64, time]),
      encodeHeader_eq_length id (Int.ofNat_le.mpr long)]
  | continuation p =>
    replace later : 1 ≤ p.index := later p rfl
    replace id : 0 ≤ p.messageId ∧ p.messageId < 0x100000000 := id
    replace long : 0x10000 ≤ p.contents.length := long
    replace fits : p.contents.length ≤ capacity size := fits
    have small : p.index < 256 := index.2
    show encodeContinuation memory p size = _
    rw [encodeContinuation, if_neg (Int.not_lt.mpr fits), if_neg (by omega),
      encodeHeader_eq_length id (Int.ofNat_le.mpr long)]

/-! ## The continuations -/

section Rest

variable {memory : Memory} {size messageId : Int} {index : Nat} {pieces : List Bytes}

theorem inBounds_continuation {contents : Bytes} (id : 0 ≤ messageId ∧ messageId < 0x100000000)
    (later : 1 ≤ index) (few : index < 256) :
    (Part.continuation ⟨messageId, index, contents⟩).InBounds where
  messageId := id
  index := ⟨Int.natCast_nonneg index, Int.ofNat_lt.mpr few⟩
  first := by rintro _ ⟨⟩
  continuation := by
    rintro _ ⟨⟩
    exact Int.ofNat_le.mpr later

/-- Continuations are written one after another, up to the first whose contents are too long. -/
theorem encodeRest_of_fits (id : 0 ≤ messageId ∧ messageId < 0x100000000)
    (room : size ≤ memory.size) (later : 1 ≤ index)
    (few : index + pieces.length ≤ 256)
    (fits : ∀ piece ∈ pieces, (piece.length : Int) ≤ capacity size) :
    ((∀ piece ∈ pieces, piece.length < 0x10000) →
      ∃ parts, encodeRest memory size messageId index pieces = .ok parts) ∧
    ((∃ piece ∈ pieces, 0x10000 ≤ piece.length) →
      encodeRest memory size messageId index pieces = .error (.header .length)) := by
  induction pieces generalizing index with
  | nil => exact ⟨fun _ => ⟨[], rfl⟩, by rintro ⟨_, ⟨⟩, _⟩⟩
  | cons piece pieces ih =>
    rw [List.length_cons] at few
    obtain ⟨written, stopped⟩ := @ih (index + 1) (by omega) (by omega)
      fun piece member => fits piece (List.mem_cons_of_mem _ member)
    have bounds : (Part.continuation ⟨messageId, index, piece⟩).InBounds :=
      inBounds_continuation id later (by omega)
    have short : (piece.length : Int) ≤ capacity size := fits piece List.mem_cons_self
    rw [encodeRest, show encodeContinuation memory ⟨messageId, index, piece⟩ size
      = encode memory (.continuation ⟨messageId, index, piece⟩) size from rfl]
    by_cases long : 0x10000 ≤ piece.length
    · rw [encode_eq_header_length bounds long short]
      refine ⟨fun narrow => ?_, fun _ => rfl⟩
      exact absurd (narrow piece List.mem_cons_self) (Nat.not_lt.mpr long)
    · obtain ⟨bs, encoded, _⟩ := exists_encode bounds (Nat.not_le.mp long) short room
      rw [encoded]
      constructor
      · intro narrow
        obtain ⟨rest, encodedRest⟩ :=
          written fun piece member => narrow piece (List.mem_cons_of_mem _ member)
        exact ⟨bs :: rest, by rw [encodedRest]; rfl⟩
      · intro overlong
        rw [stopped (((List.exists_mem_cons_iff _ _ _).mp overlong).resolve_left long)]
        rfl

end Rest

/-! ## The whole message -/

section Split

variable {memory : Memory} {payload : Bytes} {size messageId messageType timestampNs : Int}

/-- Within the limits a message is split by writing its pieces. -/
theorem split_of_within (h : WithinLimits payload size messageId messageType timestampNs) :
    split memory payload size messageId messageType timestampNs =
      match encode memory
          (ofPieces messageId messageType timestampNs (piecesOf payload size) 0) size with
      | .error e => .error e
      | .ok bs => (encodeRest memory size messageId 1 (Bytes.pieces (capacity size).toNat
          (payload.drop (firstCapacity size).toNat))).map (bs :: ·) := by
  have room := firstCapacity_pos.mpr h.room
  rw [split, if_neg (Int.not_le.mpr room), if_neg (by simp [fitsBits_32, h.messageId]),
    count_eq room, if_pos ((length_piecesOf_le_maxParts room).mpr h.length)]
  rfl

theorem inBounds_ofPieces_zero (h : WithinLimits payload size messageId messageType timestampNs) :
    (ofPieces messageId messageType timestampNs (piecesOf payload size) 0).InBounds where
  messageId := h.messageId
  index := ⟨Int.le_refl 0, Int.ofNat_lt.mpr (by decide)⟩
  first := by
    have few := (length_piecesOf_le_maxParts (firstCapacity_pos.mpr h.room)).mpr h.length
    have some : 1 ≤ (piecesOf payload size).length := Nat.succ_le_succ (Nat.zero_le _)
    rw [maxParts] at few
    rintro _ ⟨⟩
    exact ⟨⟨Int.ofNat_le.mpr some, Int.ofNat_lt.mpr (Nat.lt_succ_of_le few)⟩, h.messageType,
      h.timestampNs⟩
  continuation := by rintro _ ⟨⟩

/-- The first part holds what there is room for. -/
theorem length_firstPiece (room : 0 < firstCapacity size) :
    ((ofPieces messageId messageType timestampNs (piecesOf payload size) 0).contents.length : Int)
      = min (payload.length : Int) (firstCapacity size) := by
  rw [contents_ofPieces, piecesOf, List.getElem?_cons_zero, Option.getD_some, List.length_take]
  omega

/-- A payload that fits into one part has that for its message. -/
theorem split_of_lone (h : WithinLimits payload size messageId messageType timestampNs)
    (lone : payload.length ≤ firstCapacity size) :
    split memory payload size messageId messageType timestampNs =
      (encode memory (ofPieces messageId messageType timestampNs (piecesOf payload size) 0)
        size).map ([·]) := by
  have none : payload.drop (firstCapacity size).toNat = [] :=
    List.drop_of_length_le (by omega)
  rw [split_of_within h, none]
  cases encode memory (ofPieces messageId messageType timestampNs (piecesOf payload size) 0) size
    <;> rfl

/-- A first part that is full and not too long is written, and the others follow as they can. -/
theorem split_of_several (h : WithinLimits payload size messageId messageType timestampNs)
    (several : firstCapacity size < payload.length) (narrow : firstCapacity size ≤ 0xFFFF)
    (held : size ≤ memory.size) :
    (¬ Overflows payload.length size →
      ∃ parts, split memory payload size messageId messageType timestampNs = .ok parts) ∧
    (Overflows payload.length size →
      split memory payload size messageId messageType timestampNs = .error (.header .length)) := by
  have room := firstCapacity_pos.mpr h.room
  have positive := capacity_pos room
  have few := (length_piecesOf_le_maxParts room).mpr h.length
  have overlong := @exists_overlong_piece payload size room
  have length := @length_firstPiece payload size messageId messageType timestampNs room
  rw [Int.min_eq_right (Int.le_of_lt several)] at length
  obtain ⟨bs, encoded, _⟩ := exists_encode (inBounds_ofPieces_zero h) (by omega)
    (Int.le_of_eq length) held
  rw [piecesOf, List.length_cons, maxParts] at few
  rw [piecesOf, List.exists_mem_cons_iff, List.length_take] at overlong
  obtain ⟨written, stopped⟩ := @encodeRest_of_fits memory size messageId 1
    (Bytes.pieces (capacity size).toNat (payload.drop (firstCapacity size).toNat)) h.messageId
    held (Nat.le_refl 1) (by omega) fun piece member => by
      have short := (Bytes.length_of_mem_piecesUpTo (by omega) member).2
      omega
  rw [split_of_within h, encoded]
  constructor
  · intro short
    obtain ⟨rest, encodedRest⟩ := written fun piece member =>
      Nat.not_le.mp fun long => short (overlong.mp (.inr ⟨piece, member, long⟩))
    exact ⟨bs :: rest, by rw [encodedRest]; rfl⟩
  · intro overflow
    rw [stopped ((overlong.mpr overflow).resolve_left (by omega))]
    rfl

/-- Nothing else is amiss with a message within the limits whose parts hold what their headers can
say, if there is room for them. -/
theorem exists_split (h : WithinLimits payload size messageId messageType timestampNs)
    (short : ¬ Overflows payload.length size) (held : size ≤ memory.size) :
    ∃ parts, split memory payload size messageId messageType timestampNs = .ok parts := by
  have length := @length_firstPiece payload size messageId messageType timestampNs
    (firstCapacity_pos.mpr h.room)
  have narrow : min (payload.length : Int) (firstCapacity size) ≤ 0xFFFF :=
    Int.not_lt.mp fun long => short (.inl long)
  by_cases lone : payload.length ≤ firstCapacity size
  · obtain ⟨bs, encoded, _⟩ := exists_encode (inBounds_ofPieces_zero h) (by omega)
      (length.trans_le (Int.min_le_right ..)) held
    exact ⟨[bs], by rw [split_of_lone h lone, encoded]; rfl⟩
  · exact (split_of_several h (Int.not_le.mp lone) (by omega) held).1 short

/-- Contents that are too long for their header stop a split, unless there is no room for the first
part, which is written before. -/
theorem split_eq_header_length (h : WithinLimits payload size messageId messageType timestampNs)
    (overflow : Overflows payload.length size)
    (reached : FirstOverflows payload.length size ∨ size ≤ memory.size) :
    split memory payload size messageId messageType timestampNs = .error (.header .length) := by
  have length := @length_firstPiece payload size messageId messageType timestampNs
    (firstCapacity_pos.mpr h.room)
  by_cases first : FirstOverflows payload.length size
  · rw [FirstOverflows] at first
    rw [split_of_within h, encode_eq_header_length (inBounds_ofPieces_zero h) (by omega)
      (by rw [length]; exact Int.min_le_right ..)]
  · have later := overflow.resolve_left first
    rw [FirstOverflows] at first
    exact (split_of_several h (by omega) (by omega)
      (reached.resolve_left first)).2 overflow

/-- Where there is no room for the first part, it is not written. -/
theorem split_eq_memory_error (h : WithinLimits payload size messageId messageType timestampNs)
    (short : ¬ FirstOverflows payload.length size) (beyond : memory.size < size) :
    ∃ e, split memory payload size messageId messageType timestampNs = .error (.memory e) ∧
      (memory.size < firstCapacity size - payload.length →
        e = .ofCount (firstCapacity size - payload.length)) := by
  have length := @length_firstPiece payload size messageId messageType timestampNs
    (firstCapacity_pos.mpr h.room)
  rw [FirstOverflows] at short
  obtain ⟨e, fails, zeros⟩ := encode_eq_memory_error (inBounds_ofPieces_zero h) (by omega)
    (length.trans_le (Int.min_le_right ..)) beyond
  refine ⟨e, by rw [split_of_within h, fails], fun large => ?_⟩
  -- Zeros are asked for only behind a payload that fits into the first part.
  have lone : (payload.length : Int) ≤ firstCapacity size := by omega
  rw [surplus, length, Int.min_eq_left lone] at zeros
  exact zeros large

/-- A message outside the limits is refused, over a size without room only where there is none. The
numbers that the refusal names are small, or the size. -/
theorem exists_refusal (h : ¬ WithinLimits payload size messageId messageType timestampNs) :
    ∃ e : Error, split memory payload size messageId messageType timestampNs = .error (.ofError e) ∧
      (0 < firstCapacity size → ∀ n, e ≠ .noRoom n) ∧
      ∀ n ∈ e.numbers, n = size ∨ 0 ≤ n ∧ n ≤ payload.length + 1 := by
  rw [split]
  split
  next none =>
    exact ⟨.noRoom size, rfl, fun room => absurd room (Int.not_lt.mpr none),
      fun n member => .inl (List.mem_singleton.mp member)⟩
  next noRoom =>
    have room := Int.not_le.mp noRoom
    split
    next => exact ⟨.messageIdRange, rfl, fun _ => by simp, fun n member => by cases member⟩
    next idFits =>
      simp only [Bool.not_eq_true', Bool.not_eq_false, fitsBits_32] at idFits
      rw [count_eq room]
      by_cases few : (piecesOf payload size).length ≤ maxParts
      · have some : 1 ≤ (piecesOf payload size).length := Nat.succ_le_succ (Nat.zero_le _)
        have fits : ¬ firstCapacity size
            < (payload.take (firstCapacity size).toNat).length := by
          rw [List.length_take]
          omega
        rw [if_pos few]
        simp only [encodeFirst]
        rw [if_neg fits, if_neg (by omega)]
        by_cases type : 0 ≤ messageType ∧ messageType < 0x100000000
        · by_cases time : 0 ≤ timestampNs ∧ timestampNs < 0x10000000000000000
          · exact absurd ⟨firstCapacity_pos.mp room, idFits, type, time,
              (length_piecesOf_le_maxParts room).mp few⟩ h
          · rw [if_neg (by simp [fitsBits_32, type]),
              if_pos (by simp [← Bool.not_eq_true, fitsBits_64]; omega)]
            exact ⟨.timestampRange, rfl, fun _ => by simp, fun n member => by cases member⟩
        · rw [if_pos (by simp [← Bool.not_eq_true, fitsBits_32]; omega)]
          exact ⟨.messageTypeRange, rfl, fun _ => by simp, fun n member => by cases member⟩
      · rw [if_neg few]
        refine ⟨.tooManyParts (piecesOf payload size).length, rfl, fun _ => by simp,
          fun n member => .inr ?_⟩
        rw [List.mem_singleton.mp member, piecesOf, List.length_cons]
        have bound := Bytes.length_piecesUpTo_le (capacity size).toNat
          (payload.drop (firstCapacity size).toNat).length
          (payload.drop (firstCapacity size).toNat)
        rw [List.length_drop] at bound
        rw [Bytes.pieces, List.length_drop]
        omega

/-- In words, if the size can be written. -/
theorem exists_refusal_said (h : ¬ WithinLimits payload size messageId messageType timestampNs)
    (writable : Integer.isWritable size = true) (length : payload.length < Memory.lengthLimit) :
    ∃ e, split memory payload size messageId messageType timestampNs = .error (.part e) := by
  obtain ⟨e, refused, _, numbers⟩ := exists_refusal h
  refine ⟨e, ?_⟩
  rw [refused, WriteError.ofError, if_pos]
  rw [List.all_eq_true]
  intro n member
  rcases numbers n member with rfl | ⟨nonneg, small⟩
  · exact writable
  · exact Integer.isWritable_of_lt nonneg (by rw [Memory.lengthLimit] at length; omega)

end Split

/-! ## Endings -/

section OfError

variable {e : Error}

/-- A refusal is that, or cannot be put into words. -/
theorem ofError_cases (e : Error) :
    WriteError.ofError e = .part e ∨ WriteError.ofError e = .number .tooLong := by
  rw [WriteError.ofError]
  split
  · exact .inl rfl
  · exact .inr rfl

theorem ofError_ne_header (cause : HeaderError) : WriteError.ofError e ≠ .header cause := by
  rcases ofError_cases e with h | h <;> simp [h]

theorem ofError_ne_memory (cause : Memory.Error) : WriteError.ofError e ≠ .memory cause := by
  rcases ofError_cases e with h | h <;> simp [h]

end OfError

section Split

variable (memory : Memory) (payload : Bytes) (size messageId messageType timestampNs : Int)

/-- The four ways in which a split ends. -/
theorem split_cases :
    (¬ WithinLimits payload size messageId messageType timestampNs ∧
      ∃ e, split memory payload size messageId messageType timestampNs = .error (.ofError e)) ∨
    WithinLimits payload size messageId messageType timestampNs ∧
      ((Overflows payload.length size ∧
          (FirstOverflows payload.length size ∨ size ≤ memory.size) ∧
          split memory payload size messageId messageType timestampNs
            = .error (.header .length)) ∨
        (¬ Overflows payload.length size ∧ size ≤ memory.size ∧
          ∃ parts, split memory payload size messageId messageType timestampNs = .ok parts) ∨
        (¬ FirstOverflows payload.length size ∧ memory.size < size ∧
          ∃ e, split memory payload size messageId messageType timestampNs
            = .error (.memory e))) := by
  by_cases within : WithinLimits payload size messageId messageType timestampNs
  · refine .inr ⟨within, ?_⟩
    by_cases reached : FirstOverflows payload.length size ∨ size ≤ memory.size
    · by_cases overflow : Overflows payload.length size
      · exact .inl ⟨overflow, reached, split_eq_header_length within overflow reached⟩
      · have held := reached.resolve_left fun first => overflow (.inl first)
        exact .inr (.inl ⟨overflow, held, exists_split within overflow held⟩)
    · obtain ⟨short, beyond⟩ := not_or.mp reached
      obtain ⟨e, fails, _⟩ := split_eq_memory_error within short (Int.not_le.mp beyond)
      exact .inr (.inr ⟨short, Int.not_le.mp beyond, e, fails⟩)
  · obtain ⟨e, refused, _⟩ := exists_refusal within
    exact .inl ⟨within, e, refused⟩

variable {memory payload size messageId messageType timestampNs}

theorem exists_split_iff :
    (∃ parts, split memory payload size messageId messageType timestampNs = .ok parts) ↔
      WithinLimits payload size messageId messageType timestampNs ∧
        ¬ Overflows payload.length size ∧ size ≤ memory.size := by
  constructor
  · rintro ⟨parts, given⟩
    rcases split_cases memory payload size messageId messageType timestampNs with
      ⟨_, _, eq⟩ | ⟨within, ⟨_, _, eq⟩ | ⟨short, held, _⟩ | ⟨_, _, _, eq⟩⟩
    · cases given.symm.trans eq
    · cases given.symm.trans eq
    · exact ⟨within, short, held⟩
    · cases given.symm.trans eq
  · rintro ⟨within, short, held⟩
    exact exists_split within short held

theorem split_eq_header_length_iff :
    split memory payload size messageId messageType timestampNs = .error (.header .length) ↔
      WithinLimits payload size messageId messageType timestampNs ∧
        Overflows payload.length size ∧
          (FirstOverflows payload.length size ∨ size ≤ memory.size) := by
  constructor
  · intro fails
    rcases split_cases memory payload size messageId messageType timestampNs with
      ⟨_, _, eq⟩ | ⟨within, ⟨overflow, reached, _⟩ | ⟨_, _, _, eq⟩ | ⟨_, _, _, eq⟩⟩
    · exact absurd (Except.error.inj (eq.symm.trans fails)) (ofError_ne_header _)
    · exact ⟨within, overflow, reached⟩
    · cases fails.symm.trans eq
    · cases fails.symm.trans eq
  · rintro ⟨within, overflow, reached⟩
    exact split_eq_header_length within overflow reached

theorem exists_memory_error_iff :
    (∃ e, split memory payload size messageId messageType timestampNs = .error (.memory e)) ↔
      WithinLimits payload size messageId messageType timestampNs ∧
        ¬ FirstOverflows payload.length size ∧ memory.size < size := by
  constructor
  · rintro ⟨e, fails⟩
    rcases split_cases memory payload size messageId messageType timestampNs with
      ⟨_, _, eq⟩ | ⟨within, ⟨_, _, eq⟩ | ⟨_, _, _, eq⟩ | ⟨short, beyond, _⟩⟩
    · exact absurd (Except.error.inj (eq.symm.trans fails)) (ofError_ne_memory _)
    · cases fails.symm.trans eq
    · cases fails.symm.trans eq
    · exact ⟨within, short, beyond⟩
  · rintro ⟨within, short, beyond⟩
    obtain ⟨e, fails, _⟩ := split_eq_memory_error within short beyond
    exact ⟨e, fails⟩

/-- A padding that there is no room for is named by what is wrong with it. -/
theorem memory_error_of_padding {e : Memory.Error}
    (fails : split memory payload size messageId messageType timestampNs = .error (.memory e))
    (large : memory.size < firstCapacity size - payload.length) :
    e = .ofCount (firstCapacity size - payload.length) := by
  obtain ⟨within, short, beyond⟩ := exists_memory_error_iff.mp ⟨e, fails⟩
  obtain ⟨e', fails', zeros⟩ := split_eq_memory_error within short beyond
  cases fails.symm.trans fails'
  exact zeros large

theorem exists_refusal_iff :
    (∃ e, split memory payload size messageId messageType timestampNs = .error (.ofError e)) ↔
      ¬ WithinLimits payload size messageId messageType timestampNs := by
  constructor
  · rintro ⟨e, refused⟩
    rcases split_cases memory payload size messageId messageType timestampNs with
      ⟨outside, _⟩ | ⟨_, ⟨_, _, eq⟩ | ⟨_, _, _, eq⟩ | ⟨_, _, _, eq⟩⟩
    · exact outside
    · exact absurd (Except.error.inj (refused.symm.trans eq)) (ofError_ne_header _)
    · cases refused.symm.trans eq
    · exact absurd (Except.error.inj (refused.symm.trans eq)) (ofError_ne_memory _)
  · intro outside
    obtain ⟨e, refused, _⟩ := exists_refusal outside
    exact ⟨e, refused⟩

/-- Where there is room for contents in a first part, no message is refused for want of it. -/
theorem split_ne_noRoom (room : 0 < firstCapacity size) (n : Int) :
    split memory payload size messageId messageType timestampNs ≠ .error (.part (.noRoom n)) := by
  intro fails
  by_cases within : WithinLimits payload size messageId messageType timestampNs
  · rcases split_cases memory payload size messageId messageType timestampNs with
      ⟨outside, _⟩ | ⟨_, ⟨_, _, eq⟩ | ⟨_, _, _, eq⟩ | ⟨_, _, _, eq⟩⟩
    · exact outside within
    · cases fails.symm.trans eq
    · cases fails.symm.trans eq
    · cases fails.symm.trans eq
  · obtain ⟨e, refused, other, _⟩ := exists_refusal within
    have eq := Except.error.inj (refused.symm.trans fails)
    rcases ofError_cases e with said | unsaid
    · cases said.symm.trans eq
      exact other room n rfl
    · cases unsaid.symm.trans eq

end Split

end Part

end PartRelay
