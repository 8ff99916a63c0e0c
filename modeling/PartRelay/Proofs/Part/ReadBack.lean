import PartRelay.Part.Codec
import PartRelay.Proofs.Bytes.BigEndian
import PartRelay.Proofs.Bytes.Memory
import PartRelay.Proofs.Results

/-!
# Parts read back

What is parsed is within the bounds of its header fields, and stands at the start of the bytes with
something behind it. What is encoded is laid out like that too, so that it is parsed as the same
part, whatever its padding.
-/

namespace PartRelay.Part

/-! ## What is looked at -/

section Inversion

variable {raw : Bytes}

/-- A first part needs its header, a number of parts, and contents within the bytes. -/
theorem parseFirst_iff {p : FirstPart} :
    parseFirst raw = .ok p ↔
      21 ≤ raw.length ∧ raw.field 7 1 ≠ 0 ∧ raw.field 5 2 ≤ raw.length - 21 ∧
        p = { messageId := raw.field 0 4
              numParts := raw.field 7 1
              messageType := raw.field 8 4
              timestampNs := raw.field 12 8
              contents := (raw.drop 20).take (raw.field 5 2) } := by
  rw [parseFirst, firstHeaderLength, headerLength]
  constructor
  · intro h
    split at h
    · cases h
    next header =>
      split at h
      · cases h
      next count =>
        split at h
        · cases h
        next fits =>
          cases h
          exact ⟨by omega, count, by omega, rfl⟩
  · rintro ⟨header, count, fits, rfl⟩
    rw [if_neg (by omega), if_neg count, if_neg (by omega)]

/-- A continuation needs contents within the bytes. -/
theorem parseContinuation_iff {p : Continuation} :
    parseContinuation raw = .ok p ↔
      raw.field 5 2 ≤ raw.length - 8 ∧
        p = { messageId := raw.field 0 4
              index := raw.field 4 1
              contents := (raw.drop 7).take (raw.field 5 2) } := by
  rw [parseContinuation, headerLength]
  constructor
  · intro h
    split at h
    · cases h
    next fits =>
      cases h
      exact ⟨by omega, rfl⟩
  · rintro ⟨fits, rfl⟩
    rw [if_neg (by omega)]

/-- The index decides what is parsed. -/
theorem parse_iff {part : Part} :
    parse raw = .ok part ↔ 8 ≤ raw.length ∧
      ((raw.field 4 1 = 0 ∧ ∃ p, parseFirst raw = .ok p ∧ .first p = part) ∨
        (raw.field 4 1 ≠ 0 ∧ ∃ p, parseContinuation raw = .ok p ∧ .continuation p = part)) := by
  rw [parse, isFirst, headerLength]
  by_cases short : raw.length < 8
  · rw [if_pos short]
    constructor
    · intro h
      cases h
    · rintro ⟨header, _⟩
      omega
  rw [if_neg short]
  by_cases zero : raw.field 4 1 = 0
  · rw [zero]
    show (parseFirst raw).map .first = .ok part ↔ _
    rw [map_eq_ok]
    constructor
    · exact fun h => ⟨Nat.not_lt.mp short, .inl ⟨rfl, h⟩⟩
    · rintro ⟨_, ⟨_, h⟩ | ⟨later, _⟩⟩
      · exact h
      · exact absurd rfl later
  · rw [beq_false_of_ne zero]
    show (parseContinuation raw).map .continuation = .ok part ↔ _
    rw [map_eq_ok]
    constructor
    · exact fun h => ⟨Nat.not_lt.mp short, .inr ⟨zero, h⟩⟩
    · rintro ⟨_, ⟨first, _⟩ | ⟨_, h⟩⟩
      · exact absurd first zero
      · exact h

end Inversion

/-! ## Bounds -/

/-- The bounds that the header sets to the numbers of a part. -/
structure InBounds (part : Part) : Prop where
  messageId : 0 ≤ part.messageId ∧ part.messageId < 0x100000000
  index : 0 ≤ part.index ∧ part.index < 256
  first : ∀ p, part = .first p → (1 ≤ p.numParts ∧ p.numParts < 256) ∧
    (0 ≤ p.messageType ∧ p.messageType < 0x100000000) ∧
    (0 ≤ p.timestampNs ∧ p.timestampNs < 0x10000000000000000)
  continuation : ∀ p, part = .continuation p → 1 ≤ p.index

theorem parseFirst_inBounds {raw : Bytes} {p : FirstPart} (h : parseFirst raw = .ok p) :
    (Part.first p).InBounds := by
  obtain ⟨_, present, _, rfl⟩ := parseFirst_iff.mp h
  have id : raw.field 0 4 < 0x100000000 := raw.field_lt 0 4
  have count : raw.field 7 1 < 256 := raw.field_lt 7 1
  have type : raw.field 8 4 < 0x100000000 := raw.field_lt 8 4
  have time : raw.field 12 8 < 0x10000000000000000 := raw.field_lt 12 8
  refine ⟨?_, ⟨Int.le_refl 0, Int.ofNat_lt.mpr (by decide)⟩, ?_, ?_⟩
  · show 0 ≤ (raw.field 0 4 : Int) ∧ (raw.field 0 4 : Int) < 0x100000000
    omega
  · rintro _ ⟨⟩
    show (1 ≤ (raw.field 7 1 : Int) ∧ (raw.field 7 1 : Int) < 256) ∧
      (0 ≤ (raw.field 8 4 : Int) ∧ (raw.field 8 4 : Int) < 0x100000000) ∧
      (0 ≤ (raw.field 12 8 : Int) ∧ (raw.field 12 8 : Int) < 0x10000000000000000)
    omega
  · rintro _ ⟨⟩

theorem parseContinuation_inBounds {raw : Bytes} {p : Continuation}
    (h : parseContinuation raw = .ok p) (index : raw.field 4 1 ≠ 0) :
    (Part.continuation p).InBounds := by
  obtain ⟨_, rfl⟩ := parseContinuation_iff.mp h
  have id : raw.field 0 4 < 0x100000000 := raw.field_lt 0 4
  have bound : raw.field 4 1 < 256 := raw.field_lt 4 1
  refine ⟨?_, ?_, ?_, ?_⟩
  · show 0 ≤ (raw.field 0 4 : Int) ∧ (raw.field 0 4 : Int) < 0x100000000
    omega
  · show 0 ≤ (raw.field 4 1 : Int) ∧ (raw.field 4 1 : Int) < 256
    omega
  · rintro _ ⟨⟩
  · rintro _ ⟨⟩
    show 1 ≤ (raw.field 4 1 : Int)
    omega

theorem parse_inBounds {raw : Bytes} {part : Part} (h : parse raw = .ok part) :
    part.InBounds := by
  obtain ⟨_, ⟨_, p, parsed, rfl⟩ | ⟨later, p, parsed, rfl⟩⟩ := parse_iff.mp h
  · exact parseFirst_inBounds parsed
  · exact parseContinuation_inBounds parsed later

/-- The contents of a part are as long as its header says, which is no more than two bytes can. -/
theorem length_contents {raw : Bytes} {part : Part} (h : parse raw = .ok part) :
    part.contents.length < 0x10000 := by
  have length : raw.field 5 2 < 0x10000 := raw.field_lt 5 2
  obtain ⟨_, ⟨_, p, parsed, rfl⟩ | ⟨_, p, parsed, rfl⟩⟩ := parse_iff.mp h
  · obtain ⟨_, _, _, rfl⟩ := parseFirst_iff.mp parsed
    exact Nat.lt_of_le_of_lt (List.length_take_le ..) length
  · obtain ⟨_, rfl⟩ := parseContinuation_iff.mp parsed
    exact Nat.lt_of_le_of_lt (List.length_take_le ..) length

/-! ## Layout -/

/-- Where the contents of a part start. -/
def offset : Part → Nat
  | .first _ => 20
  | .continuation _ => 7

/-- How much a part of its kind holds. -/
def room : Part → Int → Int
  | .first _, size => firstCapacity size
  | .continuation _, size => capacity size

/-- What stands before the contents of a part. -/
def head : Part → Bytes
  | .first p => Bytes.ofNat 4 p.messageId.toNat ++ (Bytes.ofNat 1 0 ++
      (Bytes.ofNat 2 p.contents.length ++ (Bytes.ofNat 1 p.numParts.toNat ++
        (Bytes.ofNat 4 p.messageType.toNat ++ Bytes.ofNat 8 p.timestampNs.toNat))))
  | .continuation p => Bytes.ofNat 4 p.messageId.toNat ++ (Bytes.ofNat 1 p.index.toNat ++
      Bytes.ofNat 2 p.contents.length)

/-- All of a part that is read: what is behind it is padding and the version. -/
def written (part : Part) : Bytes := part.head ++ part.contents

@[simp] theorem length_head (part : Part) : part.head.length = part.offset := by
  cases part <;> simp [head, offset]

@[simp] theorem length_written (part : Part) :
    part.written.length = part.offset + part.contents.length := by
  simp [written]

theorem room_eq (part : Part) (size : Int) : part.room size = size - (part.offset + 1) := by
  cases part <;> rfl

/-- The fields that every header starts with. -/
theorem fields_of_header {id index length : Nat} (rest : Bytes) (hid : id < 0x100000000)
    (hindex : index < 256) (hlength : length < 0x10000) {raw : Bytes}
    (eq : raw = Bytes.ofNat 4 id ++ (Bytes.ofNat 1 index ++ (Bytes.ofNat 2 length ++ rest))) :
    raw.field 0 4 = id ∧ raw.field 4 1 = index ∧ raw.field 5 2 = length := by
  refine ⟨?_, ?_, ?_⟩
  · rw [eq]
    exact Bytes.field_append [] rfl hid
  · rw [eq]
    exact Bytes.field_append _ (Bytes.length_ofNat 4 id) hindex
  · rw [eq, ← List.append_assoc]
    exact Bytes.field_append _ (by simp) hlength

section Written

variable {part : Part} {rest : Bytes}

theorem contents_of_written (part : Part) (rest : Bytes) :
    ((part.written ++ rest).drop part.offset).take part.contents.length = part.contents := by
  rw [written, List.append_assoc, List.drop_left' part.length_head, List.take_left' rfl]

theorem parse_written_continuation {p : Continuation} (bounds : (Part.continuation p).InBounds)
    (length : p.contents.length < 0x10000) (more : rest ≠ []) :
    parse ((Part.continuation p).written ++ rest) = .ok (.continuation p) := by
  obtain ⟨id, ⟨_, indexBound⟩, _, positive⟩ := bounds
  replace positive : 1 ≤ p.index := positive p rfl
  simp only [messageId, index] at id indexBound
  have contents := contents_of_written (.continuation p) rest
  have total : ((Part.continuation p).written ++ rest).length
      = 7 + p.contents.length + rest.length := by
    rw [List.length_append, length_written]
    rfl
  have behind : 0 < rest.length := List.length_pos_iff.mpr more
  have eq : (Part.continuation p).written ++ rest = Bytes.ofNat 4 p.messageId.toNat ++
      (Bytes.ofNat 1 p.index.toNat ++ (Bytes.ofNat 2 p.contents.length ++
        (p.contents ++ rest))) := by
    simp [written, head, Part.contents]
  obtain ⟨idField, indexField, lengthField⟩ :=
    fields_of_header _ (by omega) (by omega) length eq
  generalize (Part.continuation p).written ++ rest = raw at *
  have later : isFirst raw = .ok false := by
    have nonzero : (p.index.toNat == 0) = false := by
      rw [beq_eq_false_iff_ne]
      omega
    rw [isFirst, if_neg (by rw [total, headerLength]; omega), indexField, nonzero]
  rw [parse, later]
  show (parseContinuation raw).map _ = _
  rw [parseContinuation, if_neg (by rw [total, lengthField, headerLength]; omega), idField,
    indexField, lengthField, Int.toNat_of_nonneg id.1, Int.toNat_of_nonneg (by omega)]
  show Except.ok (Part.continuation ⟨p.messageId, p.index, (raw.drop 7).take _⟩) = _
  rw [show (raw.drop 7).take p.contents.length = p.contents from contents]

theorem parse_written_first {p : FirstPart} (bounds : (Part.first p).InBounds)
    (length : p.contents.length < 0x10000) (more : rest ≠ []) :
    parse ((Part.first p).written ++ rest) = .ok (.first p) := by
  obtain ⟨id, _, own, _⟩ := bounds
  obtain ⟨count, type, time⟩ := own p rfl
  simp only [messageId] at id
  have contents := contents_of_written (.first p) rest
  have total : ((Part.first p).written ++ rest).length
      = 20 + p.contents.length + rest.length := by
    rw [List.length_append, length_written]
    rfl
  have behind : 0 < rest.length := List.length_pos_iff.mpr more
  have eq : (Part.first p).written ++ rest = Bytes.ofNat 4 p.messageId.toNat ++
      (Bytes.ofNat 1 0 ++ (Bytes.ofNat 2 p.contents.length ++ (Bytes.ofNat 1 p.numParts.toNat ++
        (Bytes.ofNat 4 p.messageType.toNat ++ (Bytes.ofNat 8 p.timestampNs.toNat ++
          (p.contents ++ rest)))))) := by
    simp [written, head, Part.contents]
  obtain ⟨idField, indexField, lengthField⟩ :=
    fields_of_header _ (by omega) (by omega) length eq
  have countBound : p.numParts.toNat < 256 := by omega
  have typeBound : p.messageType.toNat < 0x100000000 := by omega
  have timeBound : p.timestampNs.toNat < 0x10000000000000000 := by omega
  generalize (Part.first p).written ++ rest = raw at *
  have countField : raw.field 7 1 = p.numParts.toNat := by
    rw [eq, ← List.append_assoc, ← List.append_assoc]
    exact Bytes.field_append _ (by simp) countBound
  have typeField : raw.field 8 4 = p.messageType.toNat := by
    rw [eq, ← List.append_assoc, ← List.append_assoc, ← List.append_assoc]
    exact Bytes.field_append _ (by simp) typeBound
  have timeField : raw.field 12 8 = p.timestampNs.toNat := by
    rw [eq, ← List.append_assoc, ← List.append_assoc, ← List.append_assoc, ← List.append_assoc]
    exact Bytes.field_append _ (by simp) timeBound
  have first : isFirst raw = .ok true := by
    rw [isFirst, if_neg (by rw [total, headerLength]; omega), indexField]
    rfl
  rw [parse, first]
  show (parseFirst raw).map _ = _
  rw [parseFirst, if_neg (by rw [total, firstHeaderLength, headerLength]; omega), countField,
    if_neg (by omega), lengthField,
    if_neg (by rw [total, firstHeaderLength, headerLength]; omega), idField, typeField, timeField,
    Int.toNat_of_nonneg id.1, Int.toNat_of_nonneg (by omega), Int.toNat_of_nonneg type.1,
    Int.toNat_of_nonneg time.1]
  show Except.ok (Part.first ⟨_, _, _, _, (raw.drop 20).take _⟩) = _
  rw [show (raw.drop 20).take p.contents.length = p.contents from contents]

/-- Whatever stands behind a part, if only something does, is not read. -/
theorem parse_written (bounds : part.InBounds) (length : part.contents.length < 0x10000)
    (more : rest ≠ []) : parse (part.written ++ rest) = .ok part := by
  cases part with
  | first p => exact parse_written_first bounds length more
  | continuation p => exact parse_written_continuation bounds length more

end Written

section Parsed

variable {raw : Bytes}

theorem parseContinuation_eq_ok {p : Continuation} (header : 8 ≤ raw.length)
    (h : parseContinuation raw = .ok p) :
    ∃ rest, rest ≠ [] ∧ raw = (Part.continuation p).written ++ rest := by
  obtain ⟨fits, rfl⟩ := parseContinuation_iff.mp h
  have contents : ((raw.drop 7).take (raw.field 5 2)).length = raw.field 5 2 := by
    rw [List.length_take, List.length_drop]
    omega
  refine ⟨raw.drop (7 + raw.field 5 2), ?_, ?_⟩
  · intro none
    have length := congrArg List.length none
    rw [List.length_drop, List.length_nil] at length
    omega
  · have id := raw.drop_eq_field_append 0 4 (by omega)
    have index := raw.drop_eq_field_append 4 1 (by omega)
    have size := raw.drop_eq_field_append 5 2 (by omega)
    have back := List.take_append_drop (raw.field 5 2) (raw.drop 7)
    rw [List.drop_drop] at back
    simp only [written, head, Part.contents, Int.toNat_natCast, contents, List.append_assoc]
    rw [back, ← size, ← index, ← id, List.drop_zero]

theorem parseFirst_eq_ok {p : FirstPart} (zero : raw.field 4 1 = 0) (h : parseFirst raw = .ok p) :
    ∃ rest, rest ≠ [] ∧ raw = (Part.first p).written ++ rest := by
  obtain ⟨header, _, fits, rfl⟩ := parseFirst_iff.mp h
  have contents : ((raw.drop 20).take (raw.field 5 2)).length = raw.field 5 2 := by
    rw [List.length_take, List.length_drop]
    omega
  refine ⟨raw.drop (20 + raw.field 5 2), ?_, ?_⟩
  · intro none
    have length := congrArg List.length none
    rw [List.length_drop, List.length_nil] at length
    omega
  · have id := raw.drop_eq_field_append 0 4 (by omega)
    have index := raw.drop_eq_field_append 4 1 (by omega)
    have size := raw.drop_eq_field_append 5 2 (by omega)
    have count := raw.drop_eq_field_append 7 1 (by omega)
    have type := raw.drop_eq_field_append 8 4 (by omega)
    have time := raw.drop_eq_field_append 12 8 (by omega)
    rw [zero] at index
    have back := List.take_append_drop (raw.field 5 2) (raw.drop 20)
    rw [List.drop_drop] at back
    simp only [written, head, Part.contents, Int.toNat_natCast, contents, List.append_assoc]
    rw [back, ← time, ← type, ← count, ← size, ← index, ← id, List.drop_zero]

end Parsed

/-- Parsing takes what is laid out as a part, with something behind it, and nothing else. -/
theorem parse_eq_ok_iff {raw : Bytes} {part : Part} :
    parse raw = .ok part ↔ part.InBounds ∧ part.contents.length < 0x10000 ∧
      ∃ rest, rest ≠ [] ∧ raw = part.written ++ rest := by
  constructor
  · intro h
    refine ⟨parse_inBounds h, length_contents h, ?_⟩
    obtain ⟨header, ⟨zero, p, parsed, rfl⟩ | ⟨_, p, parsed, rfl⟩⟩ := parse_iff.mp h
    · exact parseFirst_eq_ok zero parsed
    · exact parseContinuation_eq_ok header parsed
  · rintro ⟨bounds, length, rest, more, rfl⟩
    exact parse_written bounds length more

/-! ## Writing -/

theorem fitsBits_iff {bits : Nat} {n : Int} :
    fitsBits bits n = true ↔ 0 ≤ n ∧ n.toNat < Nat.pow 2 bits := by
  simp [fitsBits, Nat.pow_eq]

theorem fitsBits_16 {n : Int} : fitsBits 16 n = true ↔ 0 ≤ n ∧ n < 0x10000 := by
  rw [fitsBits_iff, show Nat.pow 2 16 = 0x10000 from rfl]
  omega

theorem fitsBits_32 {n : Int} : fitsBits 32 n = true ↔ 0 ≤ n ∧ n < 0x100000000 := by
  rw [fitsBits_iff, show Nat.pow 2 32 = 0x100000000 from rfl]
  omega

theorem fitsBits_64 {n : Int} : fitsBits 64 n = true ↔ 0 ≤ n ∧ n < 0x10000000000000000 := by
  rw [fitsBits_iff, show Nat.pow 2 64 = 0x10000000000000000 from rfl]
  omega

theorem encodeHeader_eq_ok {messageId index length : Int} {header : Bytes} :
    encodeHeader messageId index length = .ok header ↔
      (0 ≤ messageId ∧ messageId < 0x100000000) ∧ (0 ≤ length ∧ length < 0x10000) ∧
        Bytes.ofNat 4 messageId.toNat ++ Bytes.ofNat 1 index.toNat ++
          Bytes.ofNat 2 length.toNat = header := by
  rw [encodeHeader]
  constructor
  · intro h
    split at h
    · cases h
    split at h
    · cases h
    split at h
    · cases h
    cases h
    simp_all [fitsBits_32, fitsBits_16]
  · rintro ⟨idRange, countRange, rfl⟩
    rw [if_neg (by simp [fitsBits_64]; omega), if_neg (by simp [fitsBits_32, idRange]),
      if_neg (by simp [fitsBits_16, countRange])]

section Assembled

variable {memory : Memory} {header contents bs : Bytes} {capacity : Int}

/-- What is put together around contents that fit has one length, which there is room for. -/
theorem assemble_eq_ok (fits : contents.length ≤ capacity) :
    assemble memory header contents capacity = .ok bs ↔
      header.length + capacity + 1 ≤ memory.size ∧
        header ++ (contents ++ (List.replicate (capacity - contents.length).toNat 0 ++ [version]))
          = bs := by
  have length : ((header ++ [contents, List.replicate (capacity - contents.length).toNat 0,
      [version]].flatten).length : Int) = header.length + capacity + 1 := by
    simp
    omega
  rw [assemble]
  by_cases room : capacity - contents.length ≤ memory.size
  · rw [Memory.zeros_of_le room]
    simp only [mapError_eq_ok, Memory.foldlM_append_eq_ok, ← Int.ofNat_le, length]
    simp
  · rw [Memory.zeros_of_lt (Int.not_le.mp room)]
    constructor
    · intro h
      cases h
    · rintro ⟨whole, _⟩
      omega

/-- Where there is no room for all of it, that is what is wrong; the zeros are the first that there
may be no room for. -/
theorem assemble_eq_error (fits : contents.length ≤ capacity)
    (beyond : memory.size < header.length + capacity + 1) :
    ∃ e, assemble memory header contents capacity = .error (.memory e) ∧
      (memory.size < capacity - contents.length → e = .ofCount (capacity - contents.length)) := by
  cases made : assemble memory header contents capacity with
  | ok bs => exact absurd ((assemble_eq_ok fits).mp made).1 (Int.not_le.mpr beyond)
  | error e =>
    rw [assemble] at made
    by_cases room : capacity - contents.length ≤ memory.size
    · rw [Memory.zeros_of_le room] at made
      obtain ⟨cause, _, rfl⟩ := mapError_eq_error.mp made
      exact ⟨cause, rfl, fun large => absurd large (Int.not_lt.mpr room)⟩
    · rw [Memory.zeros_of_lt (Int.not_le.mp room)] at made
      cases made
      exact ⟨_, rfl, fun _ => rfl⟩

end Assembled

/-- A part with its contents in so many bytes, zeros behind them and the version last. -/
def padded (part : Part) (zeros : Nat) : Bytes :=
  part.written ++ (List.replicate zeros 0 ++ [version])

section Encoded

variable {memory : Memory} {part : Part} {size : Int}

/-- A part whose numbers and contents fit is written, as far as there is room for it. -/
theorem encode_eq_assemble (bounds : part.InBounds) (length : part.contents.length < 0x10000)
    (fits : part.contents.length ≤ part.room size) :
    encode memory part size = assemble memory part.head part.contents (part.room size) := by
  obtain ⟨id, index, own, later⟩ := bounds
  cases part with
  | first p =>
    obtain ⟨count, type, time⟩ := own p rfl
    replace length : p.contents.length < 0x10000 := length
    replace fits : p.contents.length ≤ firstCapacity size := fits
    have header : encodeHeader p.messageId 0 p.contents.length
        = .ok (Bytes.ofNat 4 p.messageId.toNat ++ Bytes.ofNat 1 0 ++
          Bytes.ofNat 2 p.contents.length) :=
      encodeHeader_eq_ok.mpr ⟨id, by omega, rfl⟩
    show encodeFirst memory p size = _
    rw [encodeFirst, if_neg (Int.not_lt.mpr fits), if_neg (by rw [maxParts]; omega),
      if_neg (by simp [fitsBits_32, type]), if_neg (by simp [fitsBits_64, time]), header]
    simp [head, room, Part.contents]
  | continuation p =>
    replace later : 1 ≤ p.index := later p rfl
    replace length : p.contents.length < 0x10000 := length
    replace fits : p.contents.length ≤ capacity size := fits
    have small : p.index < 256 := index.2
    have header : encodeHeader p.messageId p.index p.contents.length
        = .ok (Bytes.ofNat 4 p.messageId.toNat ++ Bytes.ofNat 1 p.index.toNat ++
          Bytes.ofNat 2 p.contents.length) :=
      encodeHeader_eq_ok.mpr ⟨id, by omega, rfl⟩
    show encodeContinuation memory p size = _
    rw [encodeContinuation, if_neg (Int.not_lt.mpr fits), if_neg (by omega), header]
    simp [head, room, Part.contents]

theorem fits_of_encode {bs : Bytes} (h : encode memory part size = .ok bs) :
    part.InBounds ∧ part.contents.length < 0x10000 ∧
      part.contents.length ≤ part.room size := by
  cases part with
  | first p =>
    replace h : encodeFirst memory p size = .ok bs := h
    rw [encodeFirst] at h
    split at h
    · cases h
    next fits =>
      split at h
      · cases h
      next range =>
        split at h
        · cases h
        next type =>
          split at h
          · cases h
          next time =>
            split at h
            · cases h
            next header written =>
              obtain ⟨id, length, _⟩ := encodeHeader_eq_ok.mp written
              rw [maxParts] at range
              simp only [Bool.not_eq_true', Bool.not_eq_false, fitsBits_32, fitsBits_64]
                at type time
              refine ⟨⟨id, ⟨by simp [index], by simp [index]⟩, ?_, ?_⟩, ?_, Int.not_lt.mp fits⟩
              · rintro _ ⟨⟩
                omega
              · rintro _ ⟨⟩
              · show p.contents.length < 0x10000
                omega
  | continuation p =>
    replace h : encodeContinuation memory p size = .ok bs := h
    rw [encodeContinuation] at h
    split at h
    · cases h
    next fits =>
      split at h
      · cases h
      next range =>
        split at h
        · cases h
        next header written =>
          obtain ⟨id, length, _⟩ := encodeHeader_eq_ok.mp written
          refine ⟨⟨id, ?_, ?_, ?_⟩, ?_, Int.not_lt.mp fits⟩
          · show 0 ≤ p.index ∧ p.index < 256
            omega
          · rintro _ ⟨⟩
          · rintro _ ⟨⟩
            omega
          · show p.contents.length < 0x10000
            omega

/-- Parts that are written are those whose numbers and contents fit, at sizes with room for them
that there is room for in memory. -/
theorem encode_eq_ok_iff {bs : Bytes} :
    encode memory part size = .ok bs ↔
      (part.InBounds ∧ part.contents.length < 0x10000 ∧ part.contents.length ≤ part.room size) ∧
        size ≤ memory.size ∧
          part.padded (part.room size - part.contents.length).toNat = bs := by
  have whole : (part.head.length : Int) + part.room size + 1 = size := by
    rw [length_head, room_eq]
    omega
  constructor
  · intro h
    obtain ⟨bounds, length, fits⟩ := fits_of_encode h
    rw [encode_eq_assemble bounds length fits, assemble_eq_ok fits, whole] at h
    obtain ⟨room, rfl⟩ := h
    exact ⟨⟨bounds, length, fits⟩, room, by simp [padded, written]⟩
  · rintro ⟨⟨bounds, length, fits⟩, room, rfl⟩
    rw [encode_eq_assemble bounds length fits, assemble_eq_ok fits, whole]
    exact ⟨room, by simp [padded, written]⟩

theorem length_padded (part : Part) (zeros : Nat) :
    (part.padded zeros).length = part.offset + part.contents.length + zeros + 1 := by
  simp [padded]
  omega

theorem parse_padded (bounds : part.InBounds) (length : part.contents.length < 0x10000)
    (zeros : Nat) : parse (part.padded zeros) = .ok part :=
  parse_written bounds length (by simp)

/-- What is written has the size that was asked for and is read back. -/
theorem parse_encode {bs : Bytes} (h : encode memory part size = .ok bs) :
    (bs.length : Int) = size ∧ parse bs = .ok part := by
  obtain ⟨⟨bounds, length, fits⟩, _, rfl⟩ := encode_eq_ok_iff.mp h
  refine ⟨?_, parse_padded bounds length _⟩
  rw [room_eq] at fits ⊢
  rw [length_padded]
  omega

end Encoded

end PartRelay.Part
