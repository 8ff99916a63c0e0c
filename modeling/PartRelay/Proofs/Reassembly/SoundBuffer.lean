import PartRelay.Proofs.Part.ReadBack
import PartRelay.Proofs.Reassembly.StoredBuffer

/-!
# Sound buffers

A buffer that only parts within their bounds have come into is sound: the index zero is there
exactly when the number of parts is known, and no index reaches that number. A sound buffer takes a
part or refuses it for one reason, and stays sound.
-/

namespace PartRelay.Reassembly.Buffer

/-! ## Soundness -/

/-- What the number of parts says about the indices that are there. -/
inductive CountAgrees (b : Buffer) : Prop where
  | unknown (count : b.numParts = .null) (first : 0 ∉ b.parts.keys)
  | known (n : Int) (count : b.numParts = .int n) (range : 1 ≤ n ∧ n ≤ Part.maxParts)
      (first : 0 ∈ b.parts.keys) (below : ∀ index ∈ b.parts.keys, index < n)

structure IsSound (b : Buffer) : Prop where
  sender : b.sender.IsValid
  messageId : Integer.isWritable b.messageId = true
  messageType : Integer.isWritable b.messageType = true
  timestampNs : Integer.isWritable b.timestampNs = true
  distinct : b.parts.keys.Nodup
  indices : ∀ index ∈ b.parts.keys, 0 ≤ index ∧ index < Part.maxParts
  count : b.CountAgrees

variable {b : Buffer}

theorem CountAgrees.isLeaf (h : b.CountAgrees) : b.numParts.IsLeaf := by
  cases h with
  | unknown count first =>
    rw [count]
    exact ⟨trivial, rfl⟩
  | known n count range first below =>
    rw [count]
    exact ⟨trivial, rfl⟩

theorem CountAgrees.isWritable (h : b.CountAgrees) : b.numParts.isWritable = true := by
  cases h with
  | unknown count first =>
    rw [count]
    rfl
  | known n count range first below =>
    have limit : n ≤ 255 := range.2
    rw [count]
    exact Integer.isWritable_of_lt (by omega) (by omega)

theorem IsSound.isStorable (h : b.IsSound) : b.IsStorable where
  sender := h.sender
  numParts := h.count.isLeaf
  distinct := h.distinct
  indices := by
    intro index hi
    obtain ⟨nonneg, limit⟩ := h.indices index hi
    have small : index < 255 := limit
    exact Integer.isWritable_of_lt nonneg (by omega)

/-- A sound buffer can be stored as long as its time can be written. -/
theorem IsSound.encode_ok (h : b.IsSound) (created : Integer.isWritable b.createdMs = true) :
    ∃ bs, b.encode = .ok bs :=
  Buffer.encode_ok created h.messageId h.messageType h.count.isWritable h.timestampNs

theorem mem_keys_sorted {index : Int} : index ∈ b.sorted.parts.keys ↔ index ∈ b.parts.keys :=
  ((sortParts_perm b.parts).map Prod.fst).mem_iff

theorem IsSound.sorted (h : b.IsSound) : b.sorted.IsSound where
  sender := h.sender
  messageId := h.messageId
  messageType := h.messageType
  timestampNs := h.timestampNs
  distinct := nodup_keys_sortParts h.distinct
  indices := fun index hi => h.indices index (mem_keys_sorted.mp hi)
  count := by
    cases h.count with
    | unknown count first => exact .unknown count (mt mem_keys_sorted.mp first)
    | known n count range first below =>
      exact .known n count range (mem_keys_sorted.mpr first)
        fun index hi => below index (mem_keys_sorted.mp hi)

/-- A buffer that nothing has come into. -/
theorem isSound_opened {sender : Sender} (hs : sender.IsValid) {messageId : Int}
    (hid : Integer.isWritable messageId = true) (fingerprint : Bytes) (createdMs : Int) :
    IsSound { sender, fingerprint, messageId, createdMs } where
  sender := hs
  messageId := hid
  messageType := Integer.isWritable_of_lt (Int.le_refl 0) (Int.ofNat_lt.mpr (by decide))
  timestampNs := Integer.isWritable_of_lt (Int.le_refl 0) (Int.ofNat_lt.mpr (by decide))
  distinct := List.Pairwise.nil
  indices := fun _ hi => absurd hi List.not_mem_nil
  count := .unknown rfl List.not_mem_nil

/-! ## Taking parts in -/

/-- Whether a part agrees with the number of parts and with the indices that are there. -/
def Admits (b : Buffer) : Part → Prop
  | .first p => (∀ n, b.numParts = .int n → n = p.numParts) ∧
      ∀ index ∈ b.parts.keys, index < p.numParts
  | .continuation p => ∀ n, b.numParts = .int n → p.index < n

/-- The buffer with one more part. -/
def extended (b : Buffer) (part : Part) (residue : Option Bytes) : Buffer :=
  match part with
  | .first p =>
    { b with
      numParts := .int p.numParts
      messageType := p.messageType
      timestampNs := p.timestampNs
      residue
      parts := b.parts.set 0 p.contents }
  | .continuation p => { b with parts := b.parts.set p.index p.contents }

theorem parts_extended (part : Part) (residue : Option Bytes) :
    (b.extended part residue).parts = b.parts.set part.index part.contents := by
  cases part <;> rfl

theorem mem_keys_extended {part : Part} {residue : Option Bytes} {index : Int} :
    index ∈ (b.extended part residue).parts.keys ↔ index ∈ b.parts.keys ∨ index = part.index := by
  rw [parts_extended, Table.mem_keys_set]

theorem nodup_keys_extended (distinct : b.parts.keys.Nodup) (part : Part)
    (residue : Option Bytes) : (b.extended part residue).parts.keys.Nodup := by
  rw [parts_extended]
  exact Table.nodup_keys_set distinct _ _

theorem greatestStray?_eq_none {n : Int} (h : ∀ index ∈ b.parts.keys, index < n) :
    b.greatestStray? n = none := by
  rw [greatestStray?, List.max?_eq_none_iff, List.filter_eq_nil_iff]
  intro index hi
  rw [decide_eq_true_eq]
  have below := h index hi
  omega

theorem greatestStray?_eq_some {n index : Int} (hi : index ∈ b.parts.keys) (h : n ≤ index) :
    ∃ stray, b.greatestStray? n = some stray := by
  cases none : b.greatestStray? n with
  | some stray => exact ⟨stray, rfl⟩
  | none =>
    rw [greatestStray?, List.max?_eq_none_iff, List.filter_eq_nil_iff] at none
    exact absurd (decide_eq_true h) (none index hi)

theorem insertFirst_of_other {p : FirstPart} {n : Int} (count : b.numParts = .int n)
    (other : n ≠ p.numParts) (residue : Option Bytes) :
    b.insertFirst p residue = .error (.otherCount p.numParts (Json.int n).display) := by
  have differ : countIs (.int n) p.numParts = false := beq_eq_false_iff_ne.mpr other
  simp only [insertFirst, count, differ, Bool.not_false, if_true]

/-- With no other number of parts, only a stray part is in the way. -/
theorem IsSound.insertFirst_of_same (h : b.IsSound) {p : FirstPart}
    (same : ∀ n, b.numParts = .int n → n = p.numParts) (residue : Option Bytes) :
    b.insertFirst p residue = match b.greatestStray? p.numParts with
      | some index => .error (.strayPart index p.numParts)
      | none => .ok (b.extended (.first p) residue) := by
  cases h.count with
  | unknown count first =>
    simp only [insertFirst, count, Bool.not_true, Bool.false_eq_true, if_false]
    rfl
  | known n count range first below =>
    have equal : countIs (.int n) p.numParts = true := beq_iff_eq.mpr (same n count)
    simp only [insertFirst, count, equal, Bool.not_true, Bool.false_eq_true, if_false]
    rfl

theorem IsSound.insert_of_admits (h : b.IsSound) {part : Part} (admits : b.Admits part)
    (residue : Option Bytes) : b.insert part residue = .ok (b.extended part residue) := by
  cases part with
  | first p =>
    obtain ⟨same, below⟩ := admits
    rw [insert, h.insertFirst_of_same same, greatestStray?_eq_none below]
    rfl
  | continuation p =>
    have room : countAtMost b.numParts p.index = .ok false := by
      cases h.count with
      | unknown count first => rw [count]; rfl
      | known n count range first below =>
        have small := admits n count
        rw [count, countAtMost, decide_eq_false (by omega)]
    rw [insert, room]
    rfl

/-- A first part that does not agree is a conflict. -/
theorem IsSound.insert_first_of_not_admits (h : b.IsSound) {p : FirstPart}
    (refused : ¬ b.Admits (.first p)) (residue : Option Bytes) :
    ∃ conflict, b.insert (.first p) residue = .error (.conflict conflict) := by
  rw [insert]
  by_cases same : ∀ n, b.numParts = .int n → n = p.numParts
  · have stray : ∃ index ∈ b.parts.keys, p.numParts ≤ index := by
      refine Classical.byContradiction fun none => refused ⟨same, fun index hi => ?_⟩
      exact Int.not_le.mp fun beyond => none ⟨index, hi, beyond⟩
    obtain ⟨index, hi, beyond⟩ := stray
    obtain ⟨found, eq⟩ := greatestStray?_eq_some hi beyond
    rw [h.insertFirst_of_same same, eq]
    exact ⟨_, rfl⟩
  · obtain ⟨n, differs⟩ := Classical.not_forall.mp same
    obtain ⟨count, other⟩ := Classical.not_imp.mp differs
    rw [insertFirst_of_other count other]
    exact ⟨_, rfl⟩

/-- A continuation that does not agree is out of range. -/
theorem IsSound.insert_continuation_of_not_admits (h : b.IsSound) {p : Continuation}
    (refused : ¬ b.Admits (.continuation p)) (residue : Option Bytes) :
    b.insert (.continuation p) residue
      = .error (.part (.indexOutOfRange p.index b.numParts.display)) := by
  cases h.count with
  | unknown count first =>
    refine absurd (fun n known => ?_) refused
    rw [count] at known
    cases known
  | known n count range first below =>
    have beyond : n ≤ p.index := by
      refine Int.not_lt.mp fun small => refused fun m known => ?_
      rw [count] at known
      cases known
      exact small
    have reached : countAtMost b.numParts p.index = .ok true := by
      rw [count, countAtMost, decide_eq_true beyond]
    rw [insert, reached]

theorem IsSound.extended (h : b.IsSound) {part : Part} (bounds : part.InBounds)
    (limit : part.index < Part.maxParts) (admits : b.Admits part) (residue : Option Bytes) :
    (b.extended part residue).IsSound := by
  have distinct := nodup_keys_extended h.distinct part residue
  have indices : ∀ index ∈ (b.extended part residue).parts.keys,
      0 ≤ index ∧ index < Part.maxParts := by
    intro index hi
    rcases mem_keys_extended.mp hi with old | rfl
    · exact h.indices index old
    · exact ⟨bounds.index.1, limit⟩
  cases part with
  | first p =>
    -- The first part makes the number known and brings the index zero with it.
    obtain ⟨count, type, time⟩ := bounds.first p rfl
    have word : p.messageType < 0x10000000000000000 := by omega
    refine ⟨h.sender, h.messageId, Integer.isWritable_of_lt type.1 word,
      Integer.isWritable_of_lt time.1 time.2, distinct, indices,
      .known p.numParts rfl ⟨count.1, Int.lt_add_one_iff.mp count.2⟩
        (mem_keys_extended.mpr (.inr rfl)) ?_⟩
    intro index hi
    rcases mem_keys_extended.mp hi with old | rfl
    · exact admits.2 index old
    · show (0 : Int) < p.numParts
      omega
  | continuation p =>
    -- A continuation is never the part zero, so that it does not touch what zero stands for.
    have positive := bounds.continuation p rfl
    refine ⟨h.sender, h.messageId, h.messageType, h.timestampNs, distinct, indices, ?_⟩
    cases h.count with
    | unknown count first =>
      refine .unknown count fun hi => ?_
      rcases mem_keys_extended.mp hi with old | zero
      · exact first old
      · have same : 0 = p.index := zero
        omega
    | known n count range first below =>
      refine .known n count range (mem_keys_extended.mpr (.inl first)) fun index hi => ?_
      rcases mem_keys_extended.mp hi with old | rfl
      · exact below index old
      · exact admits n count

/-! ## Completion -/

/-- The shortcut over the number of the parts decides nothing. -/
theorem holdsBelow_iff {n : Int} :
    b.holdsBelow n = true ↔ ∀ index, 0 ≤ index → index < n → index ∈ b.parts.keys := by
  have present : (List.range n.toNat).all (fun (i : Nat) => b.parts.contains i) = true
      ↔ ∀ index, 0 ≤ index → index < n → index ∈ b.parts.keys := by
    simp only [List.all_eq_true, List.mem_range, Table.contains_iff]
    constructor
    · intro all index nonneg below
      have there := all index.toNat (by omega)
      rwa [Int.toNat_of_nonneg nonneg] at there
    · intro all i hi
      exact all i (by omega) (by omega)
  rw [holdsBelow, Bool.and_eq_true, present, and_iff_right_iff_imp, decide_eq_true_eq]
  intro all
  -- The indices below `n` are all keys and all different, so there are no fewer keys than these.
  have indices : ((List.range n.toNat).map Int.ofNat).length ≤ b.parts.keys.length := by
    refine List.Nodup.length_le_of_subset ?_ ?_
    · rw [List.Nodup, List.pairwise_map]
      exact List.Pairwise.imp (fun ne eq => ne (Int.ofNat.inj eq)) List.nodup_range
    · intro index hi
      obtain ⟨i, range, rfl⟩ := List.mem_map.mp hi
      have below : (i : Int) < n := Int.lt_toNat.mp (List.mem_range.mp range)
      exact all _ (Int.natCast_nonneg i) below
  rw [List.length_map, List.length_range, Table.keys, List.length_map] at indices
  omega

/-- Whether the number of parts is known and every index below it is there. -/
def IsComplete (b : Buffer) : Prop :=
  ∃ n, b.numParts = .int n ∧ ∀ index, 0 ≤ index → index < n → index ∈ b.parts.keys

/-- The message of a buffer that declares `n` parts. -/
def message (b : Buffer) (n : Int) : Message where
  sender := b.sender
  payload := b.payload n
  messageType := b.messageType
  timestampNs := b.timestampNs
  messageId := b.messageId
  fingerprint := b.fingerprint

theorem complete?_of_isComplete {n : Int} (count : b.numParts = .int n)
    (complete : b.IsComplete) : b.complete? = .ok (some (b.message n)) := by
  obtain ⟨m, known, all⟩ := complete
  rw [count] at known
  cases known
  rw [complete?, count]
  simp only [countOf]
  rw [if_pos (holdsBelow_iff.mpr all)]
  rfl

theorem IsSound.complete?_of_not_isComplete (h : b.IsSound) (open' : ¬ b.IsComplete) :
    b.complete? = .ok none := by
  rw [complete?]
  cases h.count with
  | unknown count first =>
    rw [count]
    rfl
  | known n count range first below =>
    rw [count]
    simp only [countOf]
    rw [if_neg fun all => open' ⟨n, count, holdsBelow_iff.mp all⟩]

end PartRelay.Reassembly.Buffer
