import PartRelay.Proofs.Part.ReadBack

/-!
# What parses as a part

Bytes are read as a part by their length, their fifth byte, and the length that they declare for
their contents; a first part also counts its parts. No field is looked for past the end of the
bytes, and the contents end before the last of them.
-/

namespace PartRelay

/-! ## Looking within the bytes -/

namespace Bytes

theorem field_one {bs : Bytes} {offset : Nat} (within : offset < bs.length) :
    bs.field offset 1 = (bs.getD offset 0).toNat := by
  rw [field, List.drop_eq_getElem_cons within, List.take_succ_cons, List.take_zero,
    List.getD_eq_getElem?_getD, List.getElem?_eq_getElem within, Option.getD_some]
  show 0 * 256 + _ = _
  omega

theorem field_two {bs : Bytes} {offset : Nat} (within : offset + 1 < bs.length) :
    bs.field offset 2 = 256 * (bs.getD offset 0).toNat + (bs.getD (offset + 1) 0).toNat := by
  have first : offset < bs.length := by omega
  rw [field, List.drop_eq_getElem_cons first, List.drop_eq_getElem_cons within,
    List.take_succ_cons, List.take_succ_cons, List.take_zero, List.getD_eq_getElem?_getD,
    List.getD_eq_getElem?_getD, List.getElem?_eq_getElem first, List.getElem?_eq_getElem within,
    Option.getD_some, Option.getD_some]
  show (0 * 256 + _) * 256 + _ = _
  omega

/-- A field that stands within the bytes. -/
def field? (bs : Bytes) (offset width : Nat) : Option Nat :=
  if offset + width ≤ bs.length then some (bs.field offset width) else none

/-- So many bytes from a place on, if there are as many. -/
def slice? (bs : Bytes) (start length : Nat) : Option Bytes :=
  if start + length ≤ bs.length then some ((bs.drop start).take length) else none

theorem field?_eq_some {bs : Bytes} {offset width : Nat} (within : offset + width ≤ bs.length) :
    bs.field? offset width = some (bs.field offset width) := if_pos within

theorem slice?_eq_some {bs : Bytes} {start length : Nat} (within : start + length ≤ bs.length) :
    bs.slice? start length = some ((bs.drop start).take length) := if_pos within

end Bytes

namespace Part

/-- Reads a first part, and gives up where a field or the contents are not within the bytes. -/
def parseFirstWithin (raw : Bytes) : Option (Except Error Part) :=
  if raw.length < firstHeaderLength then some (.error .firstTooShort)
  else do
    let messageId ← raw.field? 0 4
    let length ← raw.field? 5 2
    let numParts ← raw.field? 7 1
    let messageType ← raw.field? 8 4
    let timestampNs ← raw.field? 12 8
    if numParts = 0 then return .error .noParts
    else if length > raw.length - firstHeaderLength then
      return .error (.firstLengthOver length (raw.length - firstHeaderLength))
    else
      let contents ← raw.slice? 20 length
      return .ok (.first { messageId, numParts, messageType, timestampNs, contents })

/-- Reads a continuation in the same way. -/
def parseContinuationWithin (raw : Bytes) : Option (Except Error Part) := do
  let messageId ← raw.field? 0 4
  let index ← raw.field? 4 1
  let length ← raw.field? 5 2
  if length > raw.length - headerLength then
    return .error (.lengthOver length (raw.length - headerLength))
  else
    let contents ← raw.slice? 7 length
    return .ok (.continuation { messageId, index, contents })

/-- Reads a part like `parse`, but has no answer where `parse` would look for something past the end
of the bytes. -/
def parseWithin (raw : Bytes) : Option (Except Error Part) :=
  if raw.length < headerLength then some (.error .tooShort)
  else do
    let index ← raw.field? 4 1
    if index = 0 then parseFirstWithin raw else parseContinuationWithin raw

theorem parseFirstWithin_eq (raw : Bytes) :
    parseFirstWithin raw = some ((parseFirst raw).map .first) := by
  rw [parseFirstWithin, parseFirst]
  by_cases short : raw.length < firstHeaderLength
  · rw [if_pos short, if_pos short]
    rfl
  rw [if_neg short, if_neg short]
  have header : 21 ≤ raw.length := Nat.not_lt.mp short
  rw [Bytes.field?_eq_some (by omega), Bytes.field?_eq_some (by omega),
    Bytes.field?_eq_some (by omega), Bytes.field?_eq_some (by omega),
    Bytes.field?_eq_some (by omega)]
  simp only [Option.bind_eq_bind, Option.bind_some]
  by_cases none : raw.field 7 1 = 0
  · rw [if_pos none, if_pos none]
    rfl
  rw [if_neg none, if_neg none]
  by_cases beyond : raw.field 5 2 > raw.length - firstHeaderLength
  · rw [if_pos beyond, if_pos (by omega)]
    rfl
  · have fits : 20 + raw.field 5 2 ≤ raw.length := by
      rw [firstHeaderLength, headerLength] at beyond
      omega
    rw [if_neg beyond, if_neg (by omega), Bytes.slice?_eq_some fits]
    rfl

theorem parseContinuationWithin_eq {raw : Bytes} (header : headerLength ≤ raw.length) :
    parseContinuationWithin raw = some ((parseContinuation raw).map .continuation) := by
  rw [headerLength] at header
  rw [parseContinuationWithin, parseContinuation, Bytes.field?_eq_some (by omega),
    Bytes.field?_eq_some (by omega), Bytes.field?_eq_some (by omega)]
  simp only [Option.bind_eq_bind, Option.bind_some]
  by_cases beyond : raw.field 5 2 > raw.length - headerLength
  · rw [if_pos beyond, if_pos (by omega)]
    rfl
  · have fits : 7 + raw.field 5 2 ≤ raw.length := by
      rw [headerLength] at beyond
      omega
    rw [if_neg beyond, if_neg (by omega), Bytes.slice?_eq_some fits]
    rfl

/-- Whatever the bytes are, nothing is looked for past their end. -/
theorem parseWithin_eq (raw : Bytes) : parseWithin raw = some (parse raw) := by
  rw [parseWithin, parse, isFirst]
  by_cases short : raw.length < headerLength
  · rw [if_pos short, if_pos short]
  rw [if_neg short, if_neg short]
  have header : headerLength ≤ raw.length := Nat.not_lt.mp short
  rw [Bytes.field?_eq_some (by rw [headerLength] at header; omega)]
  simp only [Option.bind_eq_bind, Option.bind_some]
  by_cases zero : raw.field 4 1 = 0
  · rw [if_pos zero, parseFirstWithin_eq, zero]
    rfl
  · rw [if_neg zero, parseContinuationWithin_eq header, beq_false_of_ne zero]

/-! ## The grammar -/

/-- How long the contents are, as the bytes have it. -/
def declaredLength (raw : Bytes) : Nat :=
  256 * (raw.getD 5 0).toNat + (raw.getD 6 0).toNat

/-- The bytes of a continuation. -/
structure IsContinuation (raw : Bytes) : Prop where
  header : 8 ≤ raw.length
  index : raw.getD 4 0 ≠ 0
  fits : declaredLength raw ≤ raw.length - 8

/-- The bytes of a first part. -/
structure IsFirstPart (raw : Bytes) : Prop where
  header : 21 ≤ raw.length
  index : raw.getD 4 0 = 0
  numParts : raw.getD 7 0 ≠ 0
  fits : declaredLength raw ≤ raw.length - 21

section Fields

variable {raw : Bytes} (header : 8 ≤ raw.length)
include header

theorem field_index : raw.field 4 1 = (raw.getD 4 0).toNat := Bytes.field_one (by omega)

theorem field_index_eq_zero : raw.field 4 1 = 0 ↔ raw.getD 4 0 = 0 := by
  rw [field_index header, ← UInt8.toNat_inj]
  rfl

theorem field_numParts_eq_zero : raw.field 7 1 = 0 ↔ raw.getD 7 0 = 0 := by
  rw [Bytes.field_one (by omega), ← UInt8.toNat_inj]
  rfl

theorem field_length : raw.field 5 2 = declaredLength raw := Bytes.field_two (by omega)

end Fields

/-- What a part is that has been read from bytes of its kind. -/
structure IsReadFrom (part : Part) (raw : Bytes) : Prop where
  kind : IsContinuation raw ∧ part.offset = 7 ∨ IsFirstPart raw ∧ part.offset = 20
  contents : part.contents = (raw.drop part.offset).take (declaredLength raw)
  length : part.contents.length = declaredLength raw
  before_version : part.offset + declaredLength raw < raw.length

theorem isReadFrom_of_parse {raw : Bytes} {part : Part} (h : parse raw = .ok part) :
    part.IsReadFrom raw := by
  obtain ⟨header, ⟨zero, p, parsed, rfl⟩ | ⟨later, p, parsed, rfl⟩⟩ := parse_iff.mp h
  · obtain ⟨whole, count, fits, rfl⟩ := parseFirst_iff.mp parsed
    rw [field_index_eq_zero header] at zero
    rw [Ne, field_numParts_eq_zero header] at count
    rw [field_length header] at fits ⊢
    refine ⟨.inr ⟨⟨whole, zero, count, fits⟩, rfl⟩, rfl, ?_, ?_⟩
    · simp only [Part.contents, List.length_take, List.length_drop]
      omega
    · simp only [offset]
      omega
  · obtain ⟨fits, rfl⟩ := parseContinuation_iff.mp parsed
    rw [Ne, field_index_eq_zero header] at later
    rw [field_length header] at fits ⊢
    refine ⟨.inl ⟨⟨header, later, fits⟩, rfl⟩, rfl, ?_, ?_⟩
    · simp only [Part.contents, List.length_take, List.length_drop]
      omega
    · simp only [offset]
      omega

theorem exists_parse_of_isContinuation {raw : Bytes} (h : IsContinuation raw) :
    ∃ part, parse raw = .ok part := by
  obtain ⟨header, index, fits⟩ := h
  rw [← field_length header] at fits
  have later : raw.field 4 1 ≠ 0 := mt (field_index_eq_zero header).mp index
  exact ⟨_, parse_iff.mpr
    ⟨header, .inr ⟨later, _, parseContinuation_iff.mpr ⟨fits, rfl⟩, rfl⟩⟩⟩

theorem exists_parse_of_isFirstPart {raw : Bytes} (h : IsFirstPart raw) :
    ∃ part, parse raw = .ok part := by
  obtain ⟨whole, index, numParts, fits⟩ := h
  have header : 8 ≤ raw.length := by omega
  rw [← field_length header] at fits
  have zero : raw.field 4 1 = 0 := (field_index_eq_zero header).mpr index
  have count : raw.field 7 1 ≠ 0 := mt (field_numParts_eq_zero header).mp numParts
  exact ⟨_, parse_iff.mpr
    ⟨header, .inl ⟨zero, _, parseFirst_iff.mpr ⟨whole, count, fits, rfl⟩, rfl⟩⟩⟩

/-- Bytes are read as a part when they are those of a continuation or of a first part, and refused
when they are neither; both are decided by what is within the bytes. -/
theorem parse_grammar (raw : Bytes) :
    ((∃ part, parse raw = .ok part) ↔ IsContinuation raw ∨ IsFirstPart raw) ∧
      (∀ part, parse raw = .ok part → part.IsReadFrom raw) ∧
      (¬ (IsContinuation raw ∨ IsFirstPart raw) → ∃ e : Error, parse raw = .error e) ∧
      parseWithin raw = some (parse raw) := by
  have accepted : (∃ part, parse raw = .ok part) ↔ IsContinuation raw ∨ IsFirstPart raw := by
    constructor
    · rintro ⟨part, parsed⟩
      rcases (isReadFrom_of_parse parsed).kind with ⟨kind, _⟩ | ⟨kind, _⟩
      · exact .inl kind
      · exact .inr kind
    · rintro (kind | kind)
      · exact exists_parse_of_isContinuation kind
      · exact exists_parse_of_isFirstPart kind
  refine ⟨accepted, fun part => isReadFrom_of_parse, fun neither => ?_, parseWithin_eq raw⟩
  cases parsed : parse raw with
  | error e => exact ⟨e, rfl⟩
  | ok part => exact absurd (accepted.mp ⟨part, parsed⟩) neither

theorem parse_grammar_one_byte :
    (Part.continuation ⟨9, 2, [0x41]⟩).IsReadFrom [0, 0, 0, 9, 2, 0, 1, 0x41, 0, 0] ∧
      ∃ e : Error, parse [0, 0, 0, 9, 2, 0, 1] = .error e := by
  refine ⟨(parse_grammar _).2.1 _ (by cbv), (parse_grammar _).2.2.1 ?_⟩
  rintro (⟨header, _⟩ | ⟨header, _⟩)
  · exact absurd header (by decide)
  · exact absurd header (by decide)

end Part

end PartRelay
