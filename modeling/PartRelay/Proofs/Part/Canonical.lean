import PartRelay.Proofs.Part.ReadBack

/-!
# Canonical bytes of a part

What is written is read back as the same part. What is read is written, at the size that it came
in, with the same header and contents and zeros behind them; so that bytes of one length stand for
the same part exactly when they agree up to the end of the contents.
-/

namespace PartRelay.Part

/-- Whether a part is the first of its message. -/
def leads : Part → Bool
  | .first _ => true
  | .continuation _ => false

/-- Where the contents of a part end. -/
def extent (part : Part) : Nat := part.offset + part.contents.length

/-- How many zeros follow the contents at a size, the version apart. -/
def surplus (part : Part) (size : Int) : Int := part.room size - part.contents.length

theorem surplus_eq (part : Part) (size : Int) : part.surplus size = size - (part.extent + 1) := by
  rw [surplus, room_eq, extent]
  omega

theorem isFirst_of_parse {raw : Bytes} {part : Part} (h : parse raw = .ok part) :
    isFirst raw = .ok part.leads := by
  obtain ⟨header, kind⟩ := parse_iff.mp h
  rw [isFirst, if_neg (show ¬ raw.length < headerLength from Nat.not_lt.mpr header)]
  rcases kind with ⟨zero, p, _, rfl⟩ | ⟨later, p, _, rfl⟩
  · rw [zero]
    rfl
  · rw [beq_false_of_ne later]
    rfl

/-! ## From parts to bytes -/

section Encoded

variable {memory : Memory} {part : Part} {size : Int}

/-- A part that fits is written at any size that memory has room for. -/
theorem exists_encode (bounds : part.InBounds) (length : part.contents.length < 0x10000)
    (fits : part.contents.length ≤ part.room size) (room : size ≤ memory.size) :
    ∃ bs, encode memory part size = .ok bs ∧ (bs.length : Int) = size ∧
      isFirst bs = .ok part.leads ∧ parse bs = .ok part := by
  have encoded : encode memory part size = .ok (part.padded (part.surplus size).toNat) :=
    encode_eq_ok_iff.mpr ⟨⟨bounds, length, fits⟩, room, rfl⟩
  obtain ⟨size, parsed⟩ := parse_encode encoded
  exact ⟨_, encoded, size, isFirst_of_parse parsed, parsed⟩

/-- A part that fits, at a size that memory has no room for. -/
theorem encode_eq_memory_error (bounds : part.InBounds) (length : part.contents.length < 0x10000)
    (fits : part.contents.length ≤ part.room size) (beyond : memory.size < size) :
    ∃ e, encode memory part size = .error (.memory e) ∧
      (memory.size < part.surplus size → e = .ofCount (part.surplus size)) := by
  rw [encode_eq_assemble bounds length fits]
  exact assemble_eq_error fits (by rw [length_head, room_eq]; omega)

end Encoded

/-! ## From bytes to parts -/

section Parsed

variable {memory : Memory} {raw : Bytes} {part : Part}

theorem take_extent (h : parse raw = .ok part) :
    raw.take part.extent = part.written ∧ part.extent < raw.length := by
  obtain ⟨_, _, rest, more, rfl⟩ := parse_eq_ok_iff.mp h
  have behind : 0 < rest.length := List.length_pos_iff.mpr more
  refine ⟨List.take_left' (length_written part), ?_⟩
  rw [List.length_append, length_written, extent]
  omega

/-- What the bytes of a part become: the part again, and zeros. -/
theorem encode_of_parse (h : parse raw = .ok part)
    (room : raw.length ≤ memory.size) :
    encode memory part raw.length
      = .ok (raw.take part.extent ++ List.replicate (raw.length - part.extent) 0) := by
  obtain ⟨bounds, length, _⟩ := parse_eq_ok_iff.mp h
  obtain ⟨front, within⟩ := take_extent h
  have fits : part.contents.length ≤ part.room raw.length := by
    rw [room_eq]
    rw [extent] at within
    omega
  refine encode_eq_ok_iff.mpr ⟨⟨bounds, length, fits⟩, Int.ofNat_le.mpr room, ?_⟩
  have zeros : raw.length - part.extent = (part.surplus raw.length).toNat + 1 := by
    rw [surplus_eq]
    omega
  rw [front, zeros, List.replicate_succ', padded, surplus]
  rfl

/-- Bytes of one length stand for the same part when they agree up to the end of its contents. -/
theorem eq_iff_take_extent {other : Bytes} {part' : Part} (length : raw.length = other.length)
    (h : parse raw = .ok part) (h' : parse other = .ok part') :
    part = part' ↔ raw.take part.extent = other.take part.extent := by
  obtain ⟨front, within⟩ := take_extent h
  constructor
  · rintro rfl
    rw [front, (take_extent h').1]
  · intro agree
    have split : other = part.written ++ other.drop part.extent := by
      rw [← front, agree, List.take_append_drop]
    have more : other.drop part.extent ≠ [] := by
      intro none
      have short := List.drop_eq_nil_iff.mp none
      omega
    obtain ⟨bounds, contents, _⟩ := parse_eq_ok_iff.mp h
    have same : parse other = .ok part := parse_eq_ok_iff.mpr ⟨bounds, contents, _, more, split⟩
    rw [same] at h'
    exact Except.ok.inj h'

end Parsed

/-! ## Both directions -/

/-- Writing and reading parts undo each other, up to the bytes that are not read. A part is written
at every size that memory has room for, and so at that of the bytes it was read from. -/
theorem codec_canonical (memory : Memory) :
    (∀ (part : Part) (size : Int), part.InBounds → part.contents.length ≤ 0xFFFF →
      part.contents.length ≤ part.room size →
        (size ≤ memory.size →
          ∃ bs, encode memory part size = .ok bs ∧ (bs.length : Int) = size ∧
            isFirst bs = .ok part.leads ∧ parse bs = .ok part) ∧
        (memory.size < size →
          ∃ e, encode memory part size = .error (.memory e) ∧
            (memory.size < part.surplus size → e = .ofCount (part.surplus size)))) ∧
    (∀ (raw : memory.Held) (part : Part), parse raw.bytes = .ok part →
      ∃ bs, encode memory part raw.bytes.length = .ok bs ∧ parse bs = .ok part ∧
        bs = raw.bytes.take part.extent ++
          List.replicate (raw.bytes.length - part.extent) 0) ∧
    ∀ (raw other : Bytes) (part part' : Part), raw.length = other.length →
      parse raw = .ok part → parse other = .ok part' →
        (part = part' ↔ raw.take part.extent = other.take part.extent) := by
  refine ⟨fun part size bounds length fits => ⟨fun room => ?_, fun beyond => ?_⟩,
    fun raw part parsed => ?_, fun raw other part part' length h h' => ?_⟩
  · exact exists_encode bounds (Nat.lt_succ_of_le length) fits room
  · exact encode_eq_memory_error bounds (Nat.lt_succ_of_le length) fits beyond
  · have encoded := encode_of_parse parsed raw.room
    exact ⟨_, encoded, (parse_encode encoded).2, rfl⟩
  · exact eq_iff_take_extent length h h'

/-- A continuation with one byte. -/
def dot : Part := .continuation { messageId := 1, index := 1, contents := [0] }

theorem inBounds_dot : dot.InBounds where
  messageId := by decide
  index := by decide
  first := by rintro _ ⟨⟩
  continuation := by
    rintro _ ⟨⟩
    decide

theorem codec_canonical_dot :
    (∃ bs, encode .gigabyte dot 12 = .ok bs ∧ (bs.length : Int) = 12 ∧
      isFirst bs = .ok dot.leads ∧ parse bs = .ok dot) ∧
    (∃ e, encode .gigabyte dot 0x80000000 = .error (.memory e) ∧
      (0x40000000 < dot.surplus 0x80000000 → e = .ofCount (dot.surplus 0x80000000))) ∧
    (∃ bs, encode .gigabyte dot 10 = .ok bs ∧ parse bs = .ok dot ∧
      bs = [0, 0, 0, 1, 1, 0, 1, 0, 0, 0]) ∧
    (dot = dot ↔ ([0, 0, 0, 1, 1, 0, 1, 0] : Bytes) = [0, 0, 0, 1, 1, 0, 1, 0]) := by
  have parsed : parse [0, 0, 0, 1, 1, 0, 1, 0, 9, 9] = .ok dot := by cbv
  have parsed' : parse [0, 0, 0, 1, 1, 0, 1, 0, 7, 8] = .ok dot := by cbv
  obtain ⟨written, again, same⟩ := codec_canonical .gigabyte
  exact ⟨(written dot 12 inBounds_dot (by decide) (by decide)).1 (by decide),
    (written dot 0x80000000 inBounds_dot (by decide) (by decide)).2 (by decide),
    again ⟨_, by decide⟩ dot parsed, same _ _ dot dot rfl parsed parsed'⟩

/-- At a size whose padding is longer than any byte string, a part that fits is not written. -/
theorem encode_dot_eq_error :
    dot.InBounds ∧ dot.contents.length ≤ 0xFFFF ∧
      dot.contents.length ≤ dot.room 9223372036854775817 ∧
      ∀ memory, encode memory dot 9223372036854775817 = .error (.memory .notALength) := by
  have length : dot.contents.length ≤ 0xFFFF := by decide
  have fits : dot.contents.length ≤ dot.room 9223372036854775817 := by decide
  refine ⟨inBounds_dot, length, fits, fun memory => ?_⟩
  have limit := memory.size_lt
  rw [Memory.lengthLimit, Memory.stringOverhead] at limit
  obtain ⟨e, fails, zeros⟩ := @encode_eq_memory_error memory dot 9223372036854775817 inBounds_dot
    (Nat.lt_succ_of_le length) fits (by omega)
  rw [fails, zeros (by show _ < (9223372036854775808 : Int); omega)]
  rfl

end PartRelay.Part
