import PartRelay.Bytes.Memory
import PartRelay.Proofs.Results

/-!
# Room in memory

What a memory has room for: so many bytes and all that are fewer, never more than a length can be.
Pieces are put together just where there is room for all of them.
-/

namespace PartRelay.Memory

/-- A byte string that there is room for. Whatever a program is given is one. -/
structure Held (m : Memory) where
  bytes : Bytes
  room : bytes.length ≤ m.size

/-- A memory with room for some parts. -/
def gigabyte : Memory where
  size := 0x40000000
  portion_le := by decide
  size_lt := by decide

variable {m : Memory} {count : Int} {front back piece whole : Bytes} {pieces : List Bytes}

theorem grants_iff : m.grants count = true ↔ count ≤ m.size := by
  rw [grants, decide_eq_true_iff]

theorem not_grants_iff : m.grants count = false ↔ m.size < count := by
  rw [grants, decide_eq_false_iff_not, Int.not_le]

theorem zeros_of_le (room : count ≤ m.size) :
    m.zeros count = .ok (List.replicate count.toNat 0) := by
  rw [zeros, if_pos (grants_iff.mpr room)]

theorem zeros_of_lt (beyond : m.size < count) : m.zeros count = .error (.ofCount count) := by
  rw [zeros, not_grants_iff.mpr beyond]
  rfl

theorem append_eq_ok :
    m.append front back = .ok whole ↔ (front ++ back).length ≤ m.size ∧ front ++ back = whole := by
  simp only [append]
  constructor
  · intro h
    split at h
    next room =>
      cases h
      exact ⟨Int.ofNat_le.mp (grants_iff.mp room), rfl⟩
    next => cases h
  · rintro ⟨room, rfl⟩
    rw [if_pos (grants_iff.mpr (Int.ofNat_le.mpr room))]

/-- Pieces are put together one by one, and no sum on the way is more than what they all make. -/
theorem foldlM_append_eq_ok :
    (piece :: pieces).foldlM m.append front = .ok whole ↔
      (front ++ (piece :: pieces).flatten).length ≤ m.size ∧
        front ++ (piece :: pieces).flatten = whole := by
  induction pieces generalizing front piece with
  | nil =>
    simp only [List.foldlM_cons, List.foldlM_nil, bind_pure, List.flatten_cons, List.flatten_nil,
      List.append_nil]
    exact append_eq_ok
  | cons next pieces ih =>
    have same : front ++ (piece :: next :: pieces).flatten
        = front ++ piece ++ (next :: pieces).flatten := by
      rw [List.flatten_cons, ← List.append_assoc]
    rw [List.foldlM_cons, bind_eq_ok, same]
    constructor
    · rintro ⟨sum, added, rest⟩
      obtain ⟨_, rfl⟩ := append_eq_ok.mp added
      exact ih.mp rest
    · rintro ⟨room, made⟩
      have total := @List.length_append _ (front ++ piece) (next :: pieces).flatten
      exact ⟨front ++ piece, append_eq_ok.mpr ⟨by omega, rfl⟩, ih.mpr ⟨room, made⟩⟩

end PartRelay.Memory
