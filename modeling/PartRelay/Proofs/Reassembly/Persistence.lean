import Mathlib.Data.List.Nodup
import PartRelay.Proofs.Reassembly.CanonicalBuffer
import PartRelay.Proofs.Reassembly.Tracking

/-!
# Buffers through the store

Every buffer of a valid sender whose numbers can be written has one stored form. Its keys are in
order at every level, all of the buffer is read from it again but for the order of the parts, and
what is read is written as the same bytes. Main statement: `stored_form`.
-/

namespace PartRelay

/-! ## Keys in order -/

namespace Text

/-- The order of keys in the store, of which none stands twice. -/
def Precedes (s t : Text) : Prop := le s t = true ∧ s ≠ t

instance : DecidableRel Precedes := fun s t => inferInstanceAs (Decidable (le s t = true ∧ s ≠ t))

end Text

namespace Json

mutual

/-- Every object in the value has its keys in order. -/
def IsOrdered : Json → Prop
  | .array items => AreOrdered items
  | .object fields => (fields.map Prod.fst).Pairwise Text.Precedes ∧ FieldsOrdered fields
  | _ => True

def AreOrdered : List Json → Prop
  | [] => True
  | item :: items => IsOrdered item ∧ AreOrdered items

def FieldsOrdered : List (Text × Json) → Prop
  | [] => True
  | (_, value) :: fields => IsOrdered value ∧ FieldsOrdered fields

end

end Json

namespace Reassembly.Buffer

variable {b b' c : Buffer}

theorem mem_insertField {field other : Text × Json} {fields : List (Text × Json)} :
    other ∈ insertField field fields ↔ other = field ∨ other ∈ fields := by
  induction fields with
  | nil => simp [insertField]
  | cons first fields ih =>
    rw [insertField]
    split
    · exact List.mem_cons
    · rw [List.mem_cons, ih, List.mem_cons]
      exact or_left_comm

theorem pairwise_insertField (field : Text × Json) {fields : List (Text × Json)}
    (h : fields.Pairwise fun f g => Text.le f.1 g.1 = true) :
    (insertField field fields).Pairwise fun f g => Text.le f.1 g.1 = true := by
  induction fields with
  | nil => simp [insertField]
  | cons first fields ih =>
    obtain ⟨below, rest⟩ := List.pairwise_cons.mp h
    rw [insertField]
    split
    next before =>
      refine List.pairwise_cons.mpr ⟨fun other among => ?_, h⟩
      rcases List.mem_cons.mp among with same | later
      · exact same ▸ before
      · exact Text.le_trans before (below other later)
    next after =>
      refine List.pairwise_cons.mpr ⟨fun other among => ?_, ih rest⟩
      rcases mem_insertField.mp among with same | later
      · exact same ▸ (Text.le_total field.1 first.1).resolve_left after
      · exact below other later

theorem pairwise_sortFields (fields : List (Text × Json)) :
    (sortFields fields).Pairwise fun f g => Text.le f.1 g.1 = true := by
  induction fields with
  | nil => exact .nil
  | cons field fields ih => exact pairwise_insertField field ih

theorem fieldsOrdered_partFields (parts : Table Int Bytes) :
    Json.FieldsOrdered (parts.map partField) := by
  induction parts with
  | nil => trivial
  | cons part parts ih => exact ⟨trivial, ih⟩

/-- Fields are put in order by their keys, which are as different as the indices. -/
theorem isOrdered_partsToJson {parts : Table Int Bytes} (distinct : parts.keys.Nodup) :
    (partsToJson parts).IsOrdered := by
  have inOrder : ((sortParts parts).map partField).Pairwise fun f g => Text.le f.1 g.1 = true := by
    have sorted := partsToJson_eq parts
    rw [partsToJson, Json.object.injEq] at sorted
    exact sorted ▸ pairwise_sortFields _
  rw [partsToJson_eq]
  refine ⟨List.Pairwise.and (List.pairwise_map.mpr inOrder) ?_, fieldsOrdered_partFields _⟩
  exact nodup_partFields (nodup_keys_sortParts distinct)

theorem isOrdered_toJson (count : b.numParts.IsOrdered) (distinct : b.parts.keys.Nodup) :
    b.toJson.IsOrdered := by
  refine ⟨?_, trivial, ?_, trivial, trivial, count, isOrdered_partsToJson distinct, trivial,
    trivial, trivial, trivial⟩
  · simp only [List.map_cons, List.map_nil]
    decide
  · cases b.residue <;> trivial

/-! ## Buffers that can be stored -/

/-- A buffer of a valid sender whose numbers can be written, with a number of parts or none. -/
structure IsEncodable (b : Buffer) : Prop where
  sender : b.sender.IsValid
  messageId : Integer.isWritable b.messageId = true
  createdMs : Integer.isWritable b.createdMs = true
  numParts : b.numParts = .null ∨ ∃ n, b.numParts = .int n ∧ Integer.isWritable n = true
  messageType : Integer.isWritable b.messageType = true
  timestampNs : Integer.isWritable b.timestampNs = true
  distinct : b.parts.keys.Nodup
  indices : ∀ index ∈ b.parts.keys, Integer.isWritable index = true

theorem IsEncodable.isStorable (h : b.IsEncodable) : b.IsStorable where
  sender := h.sender
  numParts := by
    rcases h.numParts with none | ⟨n, count, _⟩
    · exact none ▸ ⟨trivial, rfl⟩
    · exact count ▸ ⟨trivial, rfl⟩
  distinct := h.distinct
  indices := h.indices

theorem IsEncodable.encode_ok (h : b.IsEncodable) : ∃ bs, b.encode = .ok bs := by
  refine Buffer.encode_ok h.createdMs h.messageId h.messageType ?_ h.timestampNs
  rcases h.numParts with none | ⟨n, count, writable⟩
  · exact none ▸ rfl
  · exact count ▸ writable

theorem IsEncodable.isOrdered_toJson (h : b.IsEncodable) : b.toJson.IsOrdered := by
  refine Buffer.isOrdered_toJson ?_ h.distinct
  rcases h.numParts with none | ⟨n, count, _⟩
  · exact none ▸ trivial
  · exact count ▸ trivial

/-! ## Equal buffers -/

/-- Two buffers that are equal in every field, the parts as a table. -/
structure Agrees (b b' : Buffer) : Prop where
  sender : b.sender = b'.sender
  fingerprint : b.fingerprint = b'.fingerprint
  messageId : b.messageId = b'.messageId
  createdMs : b.createdMs = b'.createdMs
  numParts : b.numParts = b'.numParts
  messageType : b.messageType = b'.messageType
  timestampNs : b.timestampNs = b'.timestampNs
  residue : b.residue = b'.residue
  contents : ∀ index, b.parts.get? index = b'.parts.get? index

theorem Shuffled.agrees (h : b.Shuffled b') : b.Agrees b' := by
  obtain ⟨parts', rfl⟩ : ∃ parts', b' = { b with parts := parts' } := ⟨_, h.rest.symm⟩
  exact ⟨rfl, rfl, rfl, rfl, rfl, rfl, rfl, rfl, h.get?_eq⟩

theorem perm_of_get?_eq {parts parts' : Table Int Bytes} (distinct : parts.keys.Nodup)
    (distinct' : parts'.keys.Nodup) (same : ∀ index, parts.get? index = parts'.get? index) :
    parts.Perm parts' := by
  have apart : parts.Nodup := List.Nodup.of_map Prod.fst distinct
  have apart' : parts'.Nodup := List.Nodup.of_map Prod.fst distinct'
  refine (List.perm_ext_iff_of_nodup apart apart').mpr fun part => ?_
  rw [← Table.get?_iff_mem distinct, ← Table.get?_iff_mem distinct', same]

theorem Agrees.shuffled (h : b.Agrees b') (distinct : b.parts.keys.Nodup)
    (distinct' : b'.parts.keys.Nodup) : b.Shuffled b' where
  distinct := distinct
  parts := perm_of_get?_eq distinct distinct' h.contents
  rest := by
    obtain ⟨sender, fingerprint, id, created, count, type, time, residue, _⟩ := h
    cases b
    cases b'
    simp_all

/-- Buffers have the same stored form if they are equal, and only then. -/
theorem encode_eq_iff (h : b.IsEncodable) (h' : c.IsEncodable) :
    c.encode = b.encode ↔ b.Agrees c := by
  constructor
  · intro same
    obtain ⟨bs, encoded⟩ := h.encode_ok
    have one := decode_encode h.isStorable encoded (Nat.le_refl 2)
    rw [decode_encode h'.isStorable (same.trans encoded) (Nat.le_refl 2)] at one
    -- Both are read back as one buffer, which has the parts of either in the order of the store.
    have sorted : c.sorted = b.sorted := Except.ok.inj one
    have back : b.sorted.Shuffled c := sorted ▸ (shuffled_sorted h'.distinct).symm
    exact ((shuffled_sorted h.distinct).trans back).agrees
  · intro same
    exact (same.shuffled h.distinct h'.distinct).encode_eq.symm

end Reassembly.Buffer

/-! ## Through the store -/

namespace Reassembly.Reassembler

variable {r : Reassembler} {now : Int} {s t : State} {key : Text} {b b' : Buffer}

/-- A buffer that is saved over an equal one at the same time leaves everything as it is. -/
theorem save_over (saved : r.save now s key b = .ok t) (same : b'.encode = b.encode) :
    r.save now t key b' = .ok t := by
  obtain ⟨data, store, encoded, written, rfl⟩ := save_eq_ok saved
  obtain ⟨raw, record, rfl⟩ := View.set_eq_ok written
  have again : r.view.set (Table.set s.store (r.view.rawKey key bufferVersion) raw) now key
      bufferVersion data = .ok (Table.set s.store (r.view.rawKey key bufferVersion) raw) := by
    rw [View.set, record, Except.map, Table.set_set]
  have listed : Table.contains
      (if s.active.contains key then s.active else s.active.set key b.createdMs) key = true := by
    by_cases present : s.active.contains key = true
    · rw [if_pos present]
      exact present
    · rw [if_neg present]
      exact Table.contains_iff.mpr (Table.mem_keys_set.mpr (.inr rfl))
  unfold save
  simp only [same, encoded, again, if_pos listed]

/-- A buffer of a valid sender whose numbers can be written has one stored form: ASCII text of an
object with its keys in order at every level, which equal buffers have and no others. What is read
of it, directly or through the store, is equal to the buffer, gives its message when it does, and is
written as the same bytes. -/
theorem stored_form (h : b.IsEncodable) :
    ∃ (text : Text) (b' : Buffer),
      b.encode = .ok (Utf8.write text) ∧ text.IsPrintableAscii ∧
      Json.read text = .ok b.toJson ∧ b.toJson.IsOrdered ∧
      (∀ levels, 2 ≤ levels → Buffer.decode levels (Utf8.write text) = .ok b') ∧
      b.Agrees b' ∧ b.parts.Perm b'.parts ∧
      b'.complete? = b.complete? ∧
      (∀ n, b'.holdsBelow n = b.holdsBelow n ∧ b'.payload n = b.payload n) ∧
      b'.encode = .ok (Utf8.write text) ∧
      (∀ c : Buffer, c.IsEncodable → (c.encode = .ok (Utf8.write text) ↔ b.Agrees c)) ∧
      ∀ (r : Reassembler) (now : Int) (s : State) (key : Text), Integer.isWritable now = true →
        ∃ t, r.save now s key b = .ok t ∧ r.load t key = .ok (some b') ∧
          r.save now t key b' = .ok t := by
  obtain ⟨bs, encoded⟩ := h.encode_ok
  have written := encoded
  rw [Buffer.encode] at written
  obtain ⟨text, rendered, rfl⟩ := map_eq_ok.mp written
  have plain := Buffer.isPlain_toJson h.isStorable.numParts.plain h.distinct
  -- What is read back is the buffer with its parts in the order of the store.
  have same : b.Shuffled b.sorted := Buffer.shuffled_sorted h.distinct
  have again : b.sorted.encode = b.encode := same.encode_eq.symm
  have read : Json.read text = .ok b.toJson :=
    Json.read_of_readWithin (Json.read_of_render? plain (Nat.le_refl _) rendered).2
  refine ⟨text, b.sorted, encoded, ?_, read, h.isOrdered_toJson,
    fun levels => Buffer.decode_encode h.isStorable encoded, same.agrees, same.parts,
    same.complete?_eq.symm, fun n => ⟨(same.holdsBelow_eq n).symm, (same.payload_eq n).symm⟩,
    again.trans encoded, fun c hc => ?_, fun r now s key time => ?_⟩
  · rw [Json.render?] at rendered
    split at rendered
    · cases rendered
      exact Json.isPrintableAscii_render _ plain.isReadable
    · cases rendered
  · rw [← encoded]
    exact Buffer.encode_eq_iff h hc
  · obtain ⟨t, saved⟩ := save_of_encoded r s key encoded time
    exact ⟨t, saved, load_save saved h.isStorable, save_over saved again⟩

/-- A buffer of which the residue is there but empty, with parts that the store sorts otherwise. -/
def scattered : Buffer where
  sender := ⟨List.replicate 32 7 ++ [1]⟩
  fingerprint := [255, 0]
  messageId := 9
  createdMs := -4
  numParts := .int 3
  residue := some []
  parts := [(2, [65]), (10, []), (-1, [0, 255])]

theorem stored_form_scattered :
    scattered.IsEncodable ∧ ∃ text b', scattered.encode = .ok (Utf8.write text) ∧
      (∀ levels, 2 ≤ levels → Buffer.decode levels (Utf8.write text) = .ok b') ∧
      b'.residue = some [] ∧
      b'.parts.get? 10 = some [] ∧ b'.encode = .ok (Utf8.write text) := by
  have encodable : scattered.IsEncodable := by
    constructor
    · rfl
    · exact Integer.isWritable_of_natAbs_lt (by decide)
    · exact Integer.isWritable_of_natAbs_lt (by decide)
    · exact .inr ⟨3, rfl, Integer.isWritable_of_natAbs_lt (by decide)⟩
    · exact Integer.isWritable_of_natAbs_lt (by decide)
    · exact Integer.isWritable_of_natAbs_lt (by decide)
    · decide
    · have small : ∀ index ∈ scattered.parts.keys, index.natAbs < 0x10000000000000000 := by decide
      exact fun index member => Integer.isWritable_of_natAbs_lt (small index member)
  obtain ⟨text, b', encoded, _, _, _, decoded, same, _, _, _, again, _⟩ := stored_form encodable
  exact ⟨encodable, text, b', encoded, decoded, same.residue.symm, (same.contents 10).symm, again⟩

example : scattered.sorted.parts.keys = [-1, 10, 2] := by decide

end Reassembly.Reassembler

end PartRelay
