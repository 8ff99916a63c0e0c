import PartRelay.Proofs.Json.ReadNumbers
import PartRelay.Proofs.Reassembly.Expiry

/-!
# Buffers that were read

Whatever a store holds, a buffer that is read from it has a valid sender, each index once, and
numbers of its message that can be written. Such a buffer loses nothing when a part is put into it
and it is written: what is read next time is the same buffer.
-/

namespace PartRelay.Reassembly

namespace Buffer

variable {b : Buffer} {j : Json} {bs : Bytes} {part : Part} {levels : Nat}

/-! ## The fields of a stored buffer -/

/-- A buffer with each index once whose indices, type and timestamp can be written. -/
structure IsRegular (b : Buffer) : Prop where
  messageType : Integer.isWritable b.messageType = true
  timestampNs : Integer.isWritable b.timestampNs = true
  distinct : b.parts.keys.Nodup
  indices : ∀ index ∈ b.parts.keys, Integer.isWritable index = true

/-- The fields that a buffer was read from, as far as its bounds depend on them. -/
structure Fields (j : Json) (b : Buffer) : Prop where
  sender : ∃ marshaled, Sender.unmarshal marshaled = .ok b.sender
  messageType : j.intOrZero "message_type" = .ok b.messageType
  timestampNs : j.intOrZero "timestamp_ns" = .ok b.timestampNs
  parts : ∃ stored, partsOfJson stored = .ok b.parts

theorem ofJson_eq_ok (h : ofJson j = .ok b) : Fields j b := by
  cases j with
  | object fields =>
    rw [ofJson] at h
    obtain ⟨marshaled, _, h⟩ := bind_eq_ok.mp h
    obtain ⟨sender, unmarshaled, h⟩ := bind_eq_ok.mp h
    obtain ⟨_, _, h⟩ := bind_eq_ok.mp h
    obtain ⟨_, _, h⟩ := bind_eq_ok.mp h
    obtain ⟨_, _, h⟩ := bind_eq_ok.mp h
    obtain ⟨_, type, h⟩ := bind_eq_ok.mp h
    obtain ⟨_, time, h⟩ := bind_eq_ok.mp h
    obtain ⟨_, _, h⟩ := bind_eq_ok.mp h
    obtain ⟨stored, _, h⟩ := bind_eq_ok.mp h
    obtain ⟨parts, read, h⟩ := bind_eq_ok.mp h
    cases h
    exact ⟨⟨marshaled, mapError_eq_ok.mp unmarshaled⟩, mapError_eq_ok.mp type,
      mapError_eq_ok.mp time, ⟨stored, read⟩⟩
  | _ => cases h

theorem decode_eq_ok (h : decode levels bs = .ok b) :
    ∃ t j, Json.read t = .ok j ∧ ofJson j = .ok b := by
  rw [decode] at h
  split at h
  · cases h
  split at h
  · cases h
  next j read => exact ⟨_, j, Json.read_of_readWithin read, h⟩

/-- Reading writes each index into a table, so that none is there twice. -/
theorem bounds_of_partsOfFields {done parts : Table Int Bytes} {fields : List (Text × Json)}
    (distinct : done.keys.Nodup) (indices : ∀ index ∈ done.keys, Integer.isWritable index = true)
    (h : partsOfFields done fields = .ok parts) :
    parts.keys.Nodup ∧ ∀ index ∈ parts.keys, Integer.isWritable index = true := by
  induction fields generalizing done with
  | nil =>
    cases h
    exact ⟨distinct, indices⟩
  | cons field fields ih =>
    obtain ⟨key, value⟩ := field
    rw [partsOfFields] at h
    split at h
    · cases h
    next index number =>
      split at h
      · cases h
      next contents =>
        refine ih (Table.nodup_keys_set distinct ..) (fun i hi => ?_) h
        rcases Table.mem_keys_set.mp hi with old | rfl
        · exact indices i old
        · exact Integer.isWritable_of_read number

theorem isRegular_of_decode (h : decode levels bs = .ok b) : b.IsRegular := by
  obtain ⟨t, j, read, object⟩ := decode_eq_ok h
  obtain ⟨_, type, time, stored, parts⟩ := ofJson_eq_ok object
  have measured := Json.isMeasured_of_read read
  have bounds : b.parts.keys.Nodup ∧ ∀ index ∈ b.parts.keys, Integer.isWritable index = true := by
    cases stored with
    | object fields =>
      exact @bounds_of_partsOfFields [] _ _ .nil (fun _ none => absurd none List.not_mem_nil) parts
    | _ => cases parts
  exact ⟨measured.isWritable_of_intOrZero type, measured.isWritable_of_intOrZero time, bounds.1,
    bounds.2⟩

theorem isValid_of_decode (h : decode levels bs = .ok b) : b.sender.IsValid := by
  obtain ⟨_, _, _, object⟩ := decode_eq_ok h
  obtain ⟨⟨marshaled, unmarshaled⟩, _⟩ := ofJson_eq_ok object
  exact Sender.isValid_of_unmarshal unmarshaled

/-! ## Parts that come in -/

theorem isRegular_opened (sender : Sender) (fingerprint : Bytes) (messageId createdMs : Int) :
    IsRegular { sender, fingerprint, messageId, createdMs } where
  messageType := Integer.isWritable_of_lt (Int.le_refl 0) (Int.ofNat_lt.mpr (by decide))
  timestampNs := Integer.isWritable_of_lt (Int.le_refl 0) (Int.ofNat_lt.mpr (by decide))
  distinct := .nil
  indices := fun _ none => absurd none List.not_mem_nil

theorem IsRegular.extended (h : b.IsRegular) (bounds : part.InBounds)
    (limit : part.index < Part.maxParts) (residue : Option Bytes) :
    (b.extended part residue).IsRegular := by
  have distinct := nodup_keys_extended h.distinct part residue
  have indices : ∀ index ∈ (b.extended part residue).parts.keys,
      Integer.isWritable index = true := by
    intro index hi
    have small : part.index < 255 := limit
    rcases mem_keys_extended.mp hi with old | rfl
    · exact h.indices index old
    · exact Integer.isWritable_of_lt bounds.index.1 (by omega)
  cases part with
  | first p =>
    obtain ⟨_, type, time⟩ := bounds.first p rfl
    have word : p.messageType < 0x10000000000000000 := by omega
    exact ⟨Integer.isWritable_of_lt type.1 word, Integer.isWritable_of_lt time.1 time.2, distinct,
      indices⟩
  | continuation p => exact ⟨h.messageType, h.timestampNs, distinct, indices⟩

/-- A number of parts that can be counted up to is read as it is written. -/
theorem isLeaf_of_complete? {message : Option Message} (h : b.complete? = .ok message) :
    b.numParts.IsLeaf := by
  cases count : b.numParts with
  | float x => simp [complete?, count, countOf] at h
  | string s => simp [complete?, count, countOf] at h
  | array items => simp [complete?, count, countOf] at h
  | object fields => simp [complete?, count, countOf] at h
  | _ => exact ⟨trivial, rfl⟩

end Buffer

namespace Reassembler

variable {r : Reassembler} {now : Int} {s t : State} {key : Text} {d : Delivery} {part : Part}
  {b : Buffer} {message : Option Message}

/-! ## Buffers that go on -/

theorem isRegular_of_load (h : r.load s key = .ok (some b)) : b.IsRegular := by
  obtain ⟨_, _, decoded⟩ := load_eq_some h
  exact Buffer.isRegular_of_decode decoded

theorem isValid_of_load (h : r.load s key = .ok (some b)) : b.sender.IsValid := by
  obtain ⟨_, _, decoded⟩ := load_eq_some h
  exact Buffer.isValid_of_decode decoded

/-- The buffer that a part goes into was read, or it is one that the part opens. -/
theorem bufferFor_eq_ok (h : r.bufferFor now s d part key = .ok b) :
    r.load s key = .ok (some b) ∨ r.load s key = .ok none ∧ b = freshBuffer now d part := by
  rw [bufferFor] at h
  split at h
  · cases h
  next loaded =>
    cases h
    exact .inl loaded
  next lacking =>
    cases h
    exact .inr ⟨lacking, rfl⟩

theorem isRegular_of_extend (checked : r.check d = .ok (part, key))
    (h : r.extend now s d part key = .ok (b, message)) : b.IsRegular ∧ b.numParts.IsLeaf := by
  obtain ⟨parsed, limit, _⟩ := check_eq_ok checked
  obtain ⟨opened, found, rfl, completion⟩ := extend_eq_ok h
  have regular : opened.IsRegular := by
    rcases bufferFor_eq_ok found with loaded | ⟨_, rfl⟩
    · exact isRegular_of_load loaded
    · exact Buffer.isRegular_opened ..
  exact ⟨regular.extended (Part.parse_inBounds parsed) limit _,
    Buffer.isLeaf_of_complete? completion⟩

/-- What is read after a part was taken in, if it is read at all, is the buffer that it left. -/
theorem load_of_extend {b' : Buffer} (checked : r.check d = .ok (part, key))
    (extended : r.extend now s d part key = .ok (b, message)) (saved : r.save now s key b = .ok t)
    (loaded : r.load t key = .ok (some b')) : b' = b.sorted := by
  obtain ⟨regular, leaf⟩ := isRegular_of_extend checked extended
  obtain ⟨bs, encoded, decoded⟩ := load_of_save saved loaded
  exact Buffer.sorted_of_decode leaf regular.distinct regular.indices encoded decoded

/-- A part of a valid sender leaves a buffer that is read back as it is written. -/
theorem isStorable_of_extend (valid : d.sender.IsValid) (checked : r.check d = .ok (part, key))
    (extended : r.extend now s d part key = .ok (b, message)) : b.IsStorable := by
  obtain ⟨regular, leaf⟩ := isRegular_of_extend checked extended
  obtain ⟨opened, found, rfl, _⟩ := extend_eq_ok extended
  have sender : opened.sender.IsValid := by
    rcases bufferFor_eq_ok found with loaded | ⟨_, rfl⟩
    · exact isValid_of_load loaded
    · exact valid
  refine ⟨?_, leaf, regular.distinct, regular.indices⟩
  cases part <;> exact sender

/-- Type and timestamp of a message can be written, wherever its buffer came from. -/
theorem isWritable_of_complete {m : Message} {residue : Option Bytes}
    (completed : (r.handle now s d).1 = .ok (.complete m residue)) :
    Integer.isWritable m.messageType = true ∧ Integer.isWritable m.timestampNs = true := by
  cases checked : r.check d with
  | error e =>
    rw [handle_of_check_error checked] at completed
    cases completed
  | ok result =>
    obtain ⟨part, key⟩ := result
    obtain ⟨b, extended⟩ := extend_of_complete checked completed
    obtain ⟨regular, _⟩ := isRegular_of_extend checked extended
    obtain ⟨_, _, _, completion⟩ := extend_eq_ok extended
    obtain ⟨n, rfl, _⟩ := Buffer.complete?_eq_some completion
    exact ⟨regular.messageType, regular.timestampNs⟩

end Reassembler

end PartRelay.Reassembly
