import PartRelay.Proofs.Reassembly.SoundBuffer

/-!
# Buffers up to the order of their parts

Parts stand in a buffer in order of arrival. Two buffers that differ in that order only are written
as the same bytes, complete the same message and take the same parts in. Parts with different
indices lead to such buffers in whatever order they come in.
-/

namespace PartRelay

/-! ## The order of texts -/

namespace Text

theorem le_total (s t : Text) : le s t = true ∨ le t s = true := by
  induction s generalizing t with
  | nil => exact .inl rfl
  | cons c s ih =>
    cases t with
    | nil => exact .inr rfl
    | cons d t =>
      simp only [le, Bool.or_eq_true, Bool.and_eq_true, decide_eq_true_eq, beq_iff_eq]
      rcases Nat.lt_trichotomy c.val d.val with less | same | greater
      · exact .inl (.inl less)
      · have eq : c = d := CodePoint.ext same
        rcases ih t with before | after
        · exact .inl (.inr ⟨eq, before⟩)
        · exact .inr (.inr ⟨eq.symm, after⟩)
      · exact .inr (.inl greater)

theorem le_trans {s t u : Text} (h : le s t = true) (h' : le t u = true) : le s u = true := by
  induction s generalizing t u with
  | nil => rfl
  | cons c s ih =>
    cases t with
    | nil => cases h
    | cons d t =>
      cases u with
      | nil => cases h'
      | cons e u =>
        simp only [le, Bool.or_eq_true, Bool.and_eq_true, decide_eq_true_eq, beq_iff_eq] at h h' ⊢
        rcases h with less | ⟨rfl, rest⟩
        · rcases h' with less' | ⟨rfl, _⟩
          · exact .inl (Nat.lt_trans less less')
          · exact .inl less
        · rcases h' with less' | ⟨rfl, rest'⟩
          · exact .inl less'
          · exact .inr ⟨rfl, ih rest rest'⟩

theorem le_antisymm {s t : Text} (h : le s t = true) (h' : le t s = true) : s = t := by
  induction s generalizing t with
  | nil =>
    cases t with
    | nil => rfl
    | cons d t => cases h'
  | cons c s ih =>
    cases t with
    | nil => cases h
    | cons d t =>
      simp only [le, Bool.or_eq_true, Bool.and_eq_true, decide_eq_true_eq, beq_iff_eq] at h h'
      rcases h with less | ⟨rfl, rest⟩
      · rcases h' with less' | ⟨rfl, _⟩
        · exact absurd less' (Nat.lt_asymm less)
        · exact absurd less (Nat.lt_irrefl _)
      · rcases h' with less' | ⟨_, rest'⟩
        · exact absurd less' (Nat.lt_irrefl _)
        · rw [ih rest rest']

end Text

namespace Reassembly.Buffer

/-! ## Sorting forgets the order -/

theorem insertPart_comm {one two : Int × Bytes} (ne : one.1 ≠ two.1) (parts : Table Int Bytes) :
    insertPart one (insertPart two parts) = insertPart two (insertPart one parts) := by
  have apart : ¬ (Text.le (Text.ofInt one.1) (Text.ofInt two.1) = true ∧
      Text.le (Text.ofInt two.1) (Text.ofInt one.1) = true) :=
    fun ⟨up, down⟩ => ne (Text.ofInt_injective (Text.le_antisymm up down))
  have total := Text.le_total (Text.ofInt one.1) (Text.ofInt two.1)
  induction parts with
  | nil =>
    simp only [insertPart]
    by_cases up : Text.le (Text.ofInt one.1) (Text.ofInt two.1) = true
    · rw [if_pos up, if_neg fun down => apart ⟨up, down⟩]
    · rw [if_neg up, if_pos (total.resolve_left up)]
  | cons other parts ih =>
    by_cases first : Text.le (Text.ofInt one.1) (Text.ofInt other.1) = true
    · by_cases second : Text.le (Text.ofInt two.1) (Text.ofInt other.1) = true
      · simp only [insertPart, if_pos first, if_pos second]
        by_cases up : Text.le (Text.ofInt one.1) (Text.ofInt two.1) = true
        · rw [if_pos up, if_neg fun down => apart ⟨up, down⟩]
        · rw [if_neg up, if_pos (total.resolve_left up)]
      · have up : ¬ Text.le (Text.ofInt two.1) (Text.ofInt one.1) = true :=
          fun down => second (Text.le_trans down first)
        simp only [insertPart, if_pos first, if_neg second, if_neg up]
    · by_cases second : Text.le (Text.ofInt two.1) (Text.ofInt other.1) = true
      · have down : ¬ Text.le (Text.ofInt one.1) (Text.ofInt two.1) = true :=
          fun up => first (Text.le_trans up second)
        simp only [insertPart, if_neg first, if_pos second, if_neg down]
      · simp only [insertPart, if_neg first, if_neg second, ih]

/-- Parts with different indices are sorted into one order. -/
theorem sortParts_congr {parts parts' : Table Int Bytes} (same : parts.Perm parts')
    (distinct : parts.keys.Nodup) : sortParts parts = sortParts parts' := by
  refine same.foldr_eq' (fun one ho two ht rest => ?_) []
  by_cases index : one.1 = two.1
  · have value := Table.get?_of_mem distinct ho
    rw [index, Table.get?_of_mem distinct ht] at value
    rw [show one = two from Prod.ext index (Option.some.inj value).symm]
  · exact insertPart_comm (Ne.symm index) rest

/-! ## Shuffled buffers -/

/-- Two buffers that differ in the order of their parts only, of which none is there twice. -/
structure Shuffled (b b' : Buffer) : Prop where
  distinct : b.parts.keys.Nodup
  parts : b.parts.Perm b'.parts
  rest : { b with parts := b'.parts } = b'

section Shuffled

variable {b b' b'' : Buffer} {part other : Part} {residue : Option Bytes}

theorem Shuffled.refl (distinct : b.parts.keys.Nodup) : b.Shuffled b := ⟨distinct, .refl _, rfl⟩

theorem Shuffled.trans (h : b.Shuffled b') (h' : b'.Shuffled b'') : b.Shuffled b'' where
  distinct := h.distinct
  parts := h.parts.trans h'.parts
  rest := by
    rw [← h'.rest, ← h.rest]

theorem Shuffled.symm (h : b.Shuffled b') : b'.Shuffled b where
  distinct := (h.parts.map Prod.fst).nodup_iff.mp h.distinct
  parts := h.parts.symm
  rest := by
    rw [← h.rest]

/-- What is in a buffer and what is read of its stored form differ in that order only. -/
theorem shuffled_sorted (distinct : b.parts.keys.Nodup) : b.Shuffled b.sorted :=
  ⟨distinct, (sortParts_perm b.parts).symm, rfl⟩

theorem Shuffled.mem_keys_iff (h : b.Shuffled b') {index : Int} :
    index ∈ b.parts.keys ↔ index ∈ b'.parts.keys :=
  (h.parts.map Prod.fst).mem_iff

theorem Shuffled.encode_eq (h : b.Shuffled b') : b.encode = b'.encode := by
  have stored : partsToJson b.parts = partsToJson b'.parts := by
    rw [partsToJson_eq, partsToJson_eq, sortParts_congr h.parts h.distinct]
  rw [← h.rest, encode, encode, toJson, toJson, stored]

theorem Shuffled.get?_eq (h : b.Shuffled b') (index : Int) :
    b.parts.get? index = b'.parts.get? index := by
  exact Table.get?_congr_of_mem h.distinct h.symm.distinct (fun _ => h.parts.mem_iff) index

theorem Shuffled.payload_eq (h : b.Shuffled b') (n : Int) : b.payload n = b'.payload n := by
  simp only [Buffer.payload, h.get?_eq]

theorem Shuffled.holdsBelow_eq (h : b.Shuffled b') (n : Int) :
    b.holdsBelow n = b'.holdsBelow n := by
  simp only [holdsBelow, Table.contains, h.get?_eq, h.parts.length_eq]

theorem Shuffled.complete?_eq (h : b.Shuffled b') : b.complete? = b'.complete? := by
  have rest := h.rest
  simp only [complete?, h.holdsBelow_eq, h.payload_eq]
  rw [← rest]

theorem Shuffled.isSound (h : b.Shuffled b') (sound : b.IsSound) : b'.IsSound := by
  have keys : ∀ index, index ∈ b'.parts.keys ↔ index ∈ b.parts.keys := fun _ => h.mem_keys_iff.symm
  obtain ⟨parts', rfl⟩ : ∃ parts', b' = { b with parts := parts' } := ⟨_, h.rest.symm⟩
  refine ⟨sound.sender, sound.messageId, sound.messageType, sound.timestampNs, h.symm.distinct,
    fun index hi => sound.indices index ((keys index).mp hi), ?_⟩
  cases sound.count with
  | unknown count first => exact .unknown count (mt (keys 0).mp first)
  | known n count range first below =>
    exact .known n count range ((keys 0).mpr first) fun index hi => below index ((keys index).mp hi)

theorem Shuffled.admits (h : b.Shuffled b') (admits : b.Admits part) : b'.Admits part := by
  have keys : ∀ index, index ∈ b'.parts.keys ↔ index ∈ b.parts.keys := fun _ => h.mem_keys_iff.symm
  obtain ⟨parts', rfl⟩ : ∃ parts', b' = { b with parts := parts' } := ⟨_, h.rest.symm⟩
  cases part with
  | first p => exact ⟨admits.1, fun index hi => admits.2 index ((keys index).mp hi)⟩
  | continuation p => exact admits

/-! ## Parts in any order -/

theorem Shuffled.extended (h : b.Shuffled b') (fresh : part.index ∉ b.parts.keys)
    (residue : Option Bytes) : (b.extended part residue).Shuffled (b'.extended part residue) where
  distinct := nodup_keys_extended h.distinct part residue
  parts := by
    rw [parts_extended, parts_extended, Table.set_of_absent fresh,
      Table.set_of_absent (mt h.mem_keys_iff.mpr fresh)]
    exact h.parts.append_right _
  rest := by
    rw [← h.rest]
    cases part <;> rfl

/-- Of two parts with different indices it makes no odds which comes first. -/
theorem shuffled_extended_comm (distinct : b.parts.keys.Nodup) (ne : part.index ≠ other.index)
    (fresh : part.index ∉ b.parts.keys) (fresh' : other.index ∉ b.parts.keys)
    (residue : Option Bytes) :
    ((b.extended part residue).extended other residue).Shuffled
      ((b.extended other residue).extended part residue) where
  distinct := nodup_keys_extended (nodup_keys_extended distinct part residue) other residue
  parts := by
    have after : other.index ∉ (b.parts.set part.index part.contents).keys :=
      fun hi => (Table.mem_keys_set.mp hi).elim fresh' (Ne.symm ne)
    have after' : part.index ∉ (b.parts.set other.index other.contents).keys :=
      fun hi => (Table.mem_keys_set.mp hi).elim fresh ne
    rw [parts_extended, parts_extended, parts_extended, parts_extended, Table.set_of_absent after,
      Table.set_of_absent after', Table.set_of_absent fresh, Table.set_of_absent fresh',
      List.append_assoc, List.append_assoc]
    exact (List.Perm.swap _ _ []).append_left b.parts
  rest := by
    -- Both have the index zero if both are first parts.
    cases part with
    | first p =>
      cases other with
      | first q => exact absurd rfl ne
      | continuation q => rfl
    | continuation p => cases other <;> rfl

/-- The buffer with parts put in, one after another. -/
def gathered (b : Buffer) (residue : Option Bytes) (parts : List Part) : Buffer :=
  parts.foldl (fun b part => b.extended part residue) b

theorem gathered_append (parts : List Part) :
    b.gathered residue (parts ++ [part]) = (b.gathered residue parts).extended part residue := by
  rw [gathered, List.foldl_append]
  rfl

theorem mem_keys_gathered {parts : List Part} {index : Int} :
    index ∈ (b.gathered residue parts).parts.keys ↔
      index ∈ b.parts.keys ∨ index ∈ parts.map Part.index := by
  induction parts generalizing b with
  | nil => simp [gathered]
  | cons part parts ih =>
    show index ∈ ((b.extended part residue).gathered residue parts).parts.keys ↔ _
    rw [ih, mem_keys_extended, List.map_cons, List.mem_cons, or_assoc]

/-- Parts with different indices, none of which is there, stay new as the first of them comes in. -/
theorem fresh_extended {parts : List Part} (apart : ((part :: parts).map Part.index).Nodup)
    (fresh : ∀ p ∈ part :: parts, p.index ∉ b.parts.keys) :
    ∀ p ∈ parts, p.index ∉ (b.extended part residue).parts.keys := by
  intro p hp hi
  rcases mem_keys_extended.mp hi with old | same
  · exact fresh p (List.mem_cons_of_mem _ hp) old
  · exact (List.nodup_cons.mp apart).1 (same ▸ List.mem_map_of_mem hp)

theorem Shuffled.gathered (h : b.Shuffled b') {parts : List Part}
    (apart : (parts.map Part.index).Nodup) (fresh : ∀ p ∈ parts, p.index ∉ b.parts.keys)
    (residue : Option Bytes) : (b.gathered residue parts).Shuffled (b'.gathered residue parts) := by
  induction parts generalizing b b' with
  | nil => exact h
  | cons part parts ih =>
    exact ih (h.extended (fresh part List.mem_cons_self) residue) (List.nodup_cons.mp apart).2
      (fresh_extended apart fresh)

/-- Parts with different indices lead to one buffer, up to the order of its parts. -/
theorem shuffled_gathered_perm {parts parts' : List Part} (order : parts.Perm parts')
    (distinct : b.parts.keys.Nodup) (apart : (parts.map Part.index).Nodup)
    (fresh : ∀ p ∈ parts, p.index ∉ b.parts.keys) (residue : Option Bytes) :
    (b.gathered residue parts).Shuffled (b.gathered residue parts') := by
  induction order generalizing b with
  | nil => exact .refl distinct
  | cons part _ ih =>
    exact ih (nodup_keys_extended distinct part residue) (List.nodup_cons.mp apart).2
      (fresh_extended apart fresh)
  | swap one two parts =>
    obtain ⟨others, later⟩ := List.nodup_cons.mp apart
    have ne : two.index ≠ one.index := fun same => others (same ▸ List.mem_cons_self)
    refine (shuffled_extended_comm distinct ne (fresh two List.mem_cons_self)
      (fresh one (List.mem_cons_of_mem _ List.mem_cons_self)) residue).gathered
        (List.nodup_cons.mp later).2 ?_ residue
    exact fresh_extended later (fresh_extended apart fresh)
  | trans first second ih ih' =>
    exact (ih distinct apart fresh).trans
      (ih' distinct ((first.map Part.index).nodup_iff.mp apart)
        fun p hp => fresh p (first.mem_iff.mpr hp))

end Shuffled

end Reassembly.Buffer

end PartRelay
