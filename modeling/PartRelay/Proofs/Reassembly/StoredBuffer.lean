import PartRelay.Proofs.Results
import PartRelay.Proofs.Sender
import PartRelay.Proofs.Store.Views
import PartRelay.Reassembly.BufferCodec

/-!
# Buffers read back

A buffer is read from the bytes that it is stored as. Its parts come back in order of the texts of
their indices, so that the tenth may stand before the second; as a table they are the same.
-/

namespace PartRelay.Reassembly.Buffer

/-! ## Parts in order -/

/-- Puts a part into its place among parts in order of the texts of their indices. -/
def insertPart (part : Int × Bytes) : Table Int Bytes → Table Int Bytes
  | [] => [part]
  | other :: parts =>
    if Text.le (Text.ofInt part.1) (Text.ofInt other.1) then part :: other :: parts
    else other :: insertPart part parts

/-- Parts in order of the texts of their indices. -/
def sortParts (parts : Table Int Bytes) : Table Int Bytes := parts.foldr insertPart []

theorem insertPart_perm (part : Int × Bytes) (parts : Table Int Bytes) :
    (insertPart part parts).Perm (part :: parts) := by
  induction parts with
  | nil => exact .refl _
  | cons other parts ih =>
    rw [insertPart]
    split
    · exact .refl _
    · exact (ih.cons other).trans (.swap part other parts)

theorem sortParts_perm (parts : Table Int Bytes) : (sortParts parts).Perm parts := by
  induction parts with
  | nil => exact .refl _
  | cons part parts ih => exact (insertPart_perm part _).trans (ih.cons part)

theorem nodup_keys_sortParts {parts : Table Int Bytes} (distinct : parts.keys.Nodup) :
    (sortParts parts).keys.Nodup :=
  ((sortParts_perm parts).map Prod.fst).nodup_iff.mpr distinct

theorem get?_sortParts {parts : Table Int Bytes} (distinct : parts.keys.Nodup) (index : Int) :
    (sortParts parts).get? index = parts.get? index :=
  Table.get?_congr_of_mem (nodup_keys_sortParts distinct) distinct
    (fun _ => (sortParts_perm parts).mem_iff) index

/-! ## Parts as fields -/

/-- A part as it stands among the fields of the stored object. -/
def partField (part : Int × Bytes) : Text × Json :=
  (Text.ofInt part.1, .string (Base64.write part.2))

theorem insertField_partField (part : Int × Bytes) (parts : Table Int Bytes) :
    insertField (partField part) (parts.map partField) = (insertPart part parts).map partField := by
  induction parts with
  | nil => rfl
  | cons other parts ih =>
    rw [List.map_cons, insertField, insertPart]
    show (if Text.le (Text.ofInt part.1) (Text.ofInt other.1) = true then _ else _) = _
    split
    · rfl
    · rw [ih, List.map_cons]

theorem partsToJson_eq (parts : Table Int Bytes) :
    partsToJson parts = .object ((sortParts parts).map partField) := by
  -- Fields are sorted by their names, and the name of a part is the text of its index.
  have fields : sortFields (parts.map partField) = (sortParts parts).map partField := by
    induction parts with
    | nil => rfl
    | cons part parts ih =>
      show insertField (partField part) (sortFields (parts.map partField)) = _
      rw [ih, insertField_partField]
      rfl
  exact congrArg Json.object fields

theorem nodup_partFields {parts : Table Int Bytes} (distinct : parts.keys.Nodup) :
    ((parts.map partField).map Prod.fst).Nodup := by
  have texts : (parts.map partField).map Prod.fst = parts.keys.map Text.ofInt := by
    simp [Table.keys, partField]
  rw [texts, List.Nodup, List.pairwise_map]
  exact List.Pairwise.imp (fun ne eq => ne (Text.ofInt_injective eq)) distinct

theorem fieldsPlain_partFields (parts : Table Int Bytes) :
    Json.FieldsPlain (parts.map partField) := by
  induction parts with
  | nil => trivial
  | cons part parts ih =>
    exact ⟨(Text.isPrintableAscii_ofInt _).isAscii.isScalar, Base64.isScalar_write _, ih⟩

theorem fieldsWritable_partFields (parts : Table Int Bytes) :
    Json.fieldsWritable (parts.map partField) = true := by
  induction parts with
  | nil => rfl
  | cons part parts ih => simpa [Json.fieldsWritable, partField, Json.isWritable] using ih

theorem fieldsDepth_partFields (parts : Table Int Bytes) :
    Json.fieldsDepth (parts.map partField) = 0 := by
  induction parts with
  | nil => rfl
  | cons part parts ih =>
    rw [List.map_cons, partField, Json.fieldsDepth, ih]
    rfl

theorem depth_partsToJson (parts : Table Int Bytes) : (partsToJson parts).depth = 1 := by
  rw [partsToJson_eq, Json.depth, fieldsDepth_partFields]

theorem isPlain_partsToJson {parts : Table Int Bytes} (distinct : parts.keys.Nodup) :
    (partsToJson parts).IsPlain := by
  rw [partsToJson_eq]
  exact ⟨nodup_partFields (nodup_keys_sortParts distinct), fieldsPlain_partFields _⟩

/-- Fields of parts with new indices are read as these parts, behind those that are there. -/
theorem partsOfFields_partFields {done parts : Table Int Bytes}
    (distinct : (Table.keys (done ++ parts)).Nodup)
    (writable : ∀ index ∈ parts.keys, Integer.isWritable index = true) :
    partsOfFields done (parts.map partField) = .ok (done ++ parts) := by
  induction parts generalizing done with
  | nil => simp [partsOfFields]
  | cons part parts ih =>
    obtain ⟨index, contents⟩ := part
    have number : Integer.read (Text.ofInt index) = .ok index :=
      Integer.read_ofInt (writable index (by simp [Table.keys]))
    have appended := Table.append_cons_eq_set distinct
    rw [appended] at distinct
    rw [List.map_cons, partField, partsOfFields, number]
    simp only [Json.toBytes_write]
    rw [ih distinct fun i hi => writable i (List.mem_cons_of_mem _ hi), appended]

theorem partsOfJson_partsToJson {parts : Table Int Bytes} (distinct : parts.keys.Nodup)
    (writable : ∀ index ∈ parts.keys, Integer.isWritable index = true) :
    partsOfJson (partsToJson parts) = .ok (sortParts parts) := by
  rw [partsToJson_eq]
  refine @partsOfFields_partFields [] _ (nodup_keys_sortParts distinct) ?_
  intro index hi
  exact writable index (((sortParts_perm parts).map Prod.fst).mem_iff.mp hi)

/-! ## Buffers that read back -/

/-- What a buffer needs for its stored form to be read as the same buffer. -/
structure IsStorable (b : Buffer) : Prop where
  sender : b.sender.IsValid
  numParts : b.numParts.IsLeaf
  distinct : b.parts.keys.Nodup
  indices : ∀ index ∈ b.parts.keys, Integer.isWritable index = true

/-- The buffer with its parts in the order of the store. -/
def sorted (b : Buffer) : Buffer := { b with parts := sortParts b.parts }

variable {b : Buffer}

theorem isPlain_residue (residue : Option Bytes) :
    (match residue with
      | none => Json.null
      | some bs => .string (Base64.write bs)).IsPlain := by
  cases residue with
  | none => trivial
  | some bs => exact Base64.isScalar_write bs

theorem isPlain_toJson (plain : b.numParts.IsPlain) (distinct : b.parts.keys.Nodup) :
    b.toJson.IsPlain := by
  have names : ∀ name ∈ [Text.ofString "created_ms", "key_residue", "message_id", "message_type",
      "num_parts", "parts", "relationship_fingerprint", "sender", "timestamp_ns"],
      name.IsScalar := by
    simp only [Text.IsScalar]
    decide
  simp only [List.forall_mem_cons] at names
  obtain ⟨created, residue, id, type, count, parts, fingerprint, sender, time, _⟩ := names
  refine ⟨?_, created, trivial, residue, isPlain_residue b.residue, id, trivial, type, trivial,
    count, plain, parts, isPlain_partsToJson distinct, fingerprint,
    Base64.isScalar_write _, sender, Base64.isScalar_write _, time, trivial, trivial⟩
  simp only [List.map_cons, List.map_nil]
  decide

theorem residueOfJson_residue (residue : Option Bytes) :
    residueOfJson (match residue with
      | none => Json.null
      | some bs => .string (Base64.write bs)) = .ok residue := by
  cases residue with
  | none => rfl
  | some bs =>
    show (Json.toBytes _).map some = _
    rw [Json.toBytes_write]
    rfl

theorem ofJson_toJson (valid : b.sender.IsValid) (distinct : b.parts.keys.Nodup)
    (indices : ∀ index ∈ b.parts.keys, Integer.isWritable index = true) :
    ofJson b.toJson = .ok b.sorted := by
  have sender : b.toJson.requireBytes "sender" = .ok b.sender.raw := Json.toBytes_write _
  have identity : Sender.unmarshal b.sender.raw = .ok b.sender := valid
  have fingerprint : b.toJson.requireBytes "relationship_fingerprint" = .ok b.fingerprint :=
    Json.toBytes_write _
  have id : b.toJson.requireInt "message_id" = .ok b.messageId := rfl
  have created : b.toJson.requireInt "created_ms" = .ok b.createdMs := rfl
  have type : b.toJson.intOrZero "message_type" = .ok b.messageType := rfl
  have time : b.toJson.intOrZero "timestamp_ns" = .ok b.timestampNs := rfl
  have residue : residueOfJson (b.toJson.fieldOrNull "key_residue") = .ok b.residue :=
    residueOfJson_residue b.residue
  have stored : b.toJson.require "parts" = .ok (partsToJson b.parts) := rfl
  have parts := partsOfJson_partsToJson distinct indices
  have count : b.toJson.fieldOrNull "num_parts" = b.numParts := rfl
  -- From here on the fields are known only through what is read from them.
  have object : ∃ fields, b.toJson = .object fields := ⟨_, rfl⟩
  obtain ⟨fields, eq⟩ := object
  rw [eq] at sender fingerprint id created type time residue stored count ⊢
  rw [ofJson]
  simp only [sender, identity, fingerprint, id, created, type, time, residue, stored, parts, count,
    mapError_ok, bind, Except.bind, pure, Except.pure]
  rfl

/-- A buffer is two levels: itself, and its parts. -/
theorem depth_toJson (leaf : b.numParts.IsLeaf) : b.toJson.depth = 2 := by
  have parts := depth_partsToJson b.parts
  cases residue : b.residue with
  | none => simp [toJson, residue, Json.depth, Json.fieldsDepth, leaf.depth, parts]
  | some bs => simp [toJson, residue, Json.depth, Json.fieldsDepth, leaf.depth, parts]

/-- The bytes of a buffer are read as its object. -/
theorem text_of_encode (leaf : b.numParts.IsLeaf) (distinct : b.parts.keys.Nodup) {bs : Bytes}
    (hb : b.encode = .ok bs) : ∃ t, Utf8.read bs = .ok t ∧
      ∀ levels, 2 ≤ levels → Json.readWithin levels t = .ok b.toJson := by
  rw [encode] at hb
  obtain ⟨t, text, rfl⟩ := map_eq_ok.mp hb
  have read (levels : Nat) (enough : 2 ≤ levels) := Json.read_of_render?
    (isPlain_toJson leaf.plain distinct) (depth_toJson leaf ▸ enough) text
  exact ⟨t, (read 2 (Nat.le_refl 2)).1, fun levels enough => (read levels enough).2⟩

/-- A buffer is read back from its bytes, its parts in the order of the store. -/
theorem decode_encode (h : b.IsStorable) {bs : Bytes} (hb : b.encode = .ok bs) {levels : Nat}
    (enough : 2 ≤ levels) : decode levels bs = .ok b.sorted := by
  obtain ⟨t, text, read⟩ := text_of_encode h.numParts h.distinct hb
  rw [decode, text]
  simp only [read levels enough]
  exact ofJson_toJson h.sender h.distinct h.indices

/-- Only a buffer of a valid sender is read back from its object. -/
theorem isValid_of_ofJson_toJson {b' : Buffer} (h : ofJson b.toJson = .ok b') :
    b.sender.IsValid := by
  have sender : b.toJson.requireBytes "sender" = .ok b.sender.raw := Json.toBytes_write _
  have object : ∃ fields, b.toJson = .object fields := ⟨_, rfl⟩
  obtain ⟨fields, eq⟩ := object
  rw [eq] at sender h
  rw [ofJson] at h
  cases identity : Sender.unmarshal b.sender.raw with
  | error e =>
    simp only [sender, identity, mapError_ok, bind, Except.bind] at h
    cases h
  | ok s =>
    have same : s = b.sender := Sender.ext (Sender.unmarshal_raw identity)
    exact same ▸ Sender.isValid_of_unmarshal identity

/-- What is read from the bytes of a buffer, if anything is, is that buffer. -/
theorem sorted_of_decode {b' : Buffer} (leaf : b.numParts.IsLeaf) (distinct : b.parts.keys.Nodup)
    (indices : ∀ index ∈ b.parts.keys, Integer.isWritable index = true) {bs : Bytes}
    (encoded : b.encode = .ok bs) {levels : Nat} (decoded : decode levels bs = .ok b') :
    b' = b.sorted := by
  obtain ⟨t, text, read⟩ := text_of_encode leaf distinct encoded
  have whole := Json.read_of_readWithin (read 2 (Nat.le_refl 2))
  rw [decode, text] at decoded
  dsimp only at decoded
  split at decoded
  · cases decoded
  next j value =>
    obtain rfl : j = b.toJson :=
      Except.ok.inj ((Json.read_of_readWithin value).symm.trans whole)
    have valid := isValid_of_ofJson_toJson decoded
    rw [ofJson_toJson valid distinct indices] at decoded
    cases decoded
    rfl

/-- A buffer can be stored when its numbers can be written. -/
theorem encode_ok (created : Integer.isWritable b.createdMs = true)
    (id : Integer.isWritable b.messageId = true) (type : Integer.isWritable b.messageType = true)
    (count : b.numParts.isWritable = true) (time : Integer.isWritable b.timestampNs = true) :
    ∃ bs, b.encode = .ok bs := by
  have parts : (partsToJson b.parts).isWritable = true := by
    rw [partsToJson_eq]
    exact fieldsWritable_partFields _
  have writable : b.toJson.isWritable = true := by
    cases residue : b.residue <;>
      simp [toJson, residue, Json.isWritable, Json.fieldsWritable, created, id, type, count, time,
        parts]
  rw [encode, Json.render?, if_pos writable]
  exact ⟨_, rfl⟩

end PartRelay.Reassembly.Buffer
