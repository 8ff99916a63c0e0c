import PartRelay.Proofs.Table
import PartRelay.Proofs.Store.Views
import PartRelay.Reassembly.Reassembler

/-!
# Slots

A key has a slot in a state: the raw entry of its buffer and the times that the index gives for it.
Writing, removing and pruning change the slots of the keys that they are about and no other.
-/

namespace PartRelay.Reassembly.Reassembler

variable {r : Reassembler} {now : Int} {s t : State} {key other : Text}

/-! ## The raw store -/

/-- Where the raw store holds the buffer of a key. -/
def place (r : Reassembler) (key : Text) : Text := r.view.rawKey key bufferVersion

theorem place_injective (h : r.place key = r.place other) : key = other :=
  r.view.rawKey_injective bufferVersion h

theorem place_ne (h : key ≠ other) : r.place key ≠ r.place other := fun eq => h (place_injective eq)

/-- A reassembler has the view of its name, and parts that stay for a while. -/
theorem create_eq_ok {root : View} {maxFragmentSize ttlMs : Int}
    (made : create root maxFragmentSize ttlMs = .ok r) :
    root.child viewName = .ok r.view ∧ r.maxFragmentSize = maxFragmentSize ∧
      Part.firstHeaderLength < maxFragmentSize ∧ r.ttlMs = ttlMs ∧ 0 < ttlMs := by
  rw [create] at made
  split at made
  · cases made
  next room =>
    split at made
    · cases made
    next positive =>
      split at made
      · cases made
      next view child =>
        cases made
        exact ⟨child, rfl, Int.not_le.mp room, rfl, Int.not_le.mp positive⟩

/-! ## Equal slots -/

/-- Two states that hold the same under a key. -/
structure SameSlot (r : Reassembler) (key : Text) (s t : State) : Prop where
  entry : Table.get? s.store (r.place key) = Table.get? t.store (r.place key)
  opened : ∀ created, (key, created) ∈ s.active ↔ (key, created) ∈ t.active

theorem SameSlot.refl (s : State) : SameSlot r key s s := ⟨rfl, fun _ => .rfl⟩

/-- What is read under a key depends on its slot only. -/
theorem SameSlot.load (h : SameSlot r key s t) : r.load s key = r.load t key := by
  have entry := h.entry
  rw [place] at entry
  rw [Reassembler.load, Reassembler.load, View.get, View.get, entry]

/-- A state with no entry for a key, neither in the store nor in the index. -/
structure Lacks (r : Reassembler) (s : State) (key : Text) : Prop where
  entry : Table.get? s.store (r.place key) = none
  opened : ∀ created, (key, created) ∉ s.active

theorem lacks_empty (r : Reassembler) (key : Text) : Lacks r {} key :=
  ⟨rfl, fun _ => List.not_mem_nil⟩

theorem Lacks.congr (h : Lacks r s key) (same : SameSlot r key s t) : Lacks r t key where
  entry := same.entry ▸ h.entry
  opened := fun created hc => h.opened created ((same.opened created).mpr hc)

theorem Lacks.load (h : Lacks r s key) : r.load s key = .ok none := by
  rw [Reassembler.load, View.get_of_absent h.entry]

/-! ## Removing and writing -/

theorem get?_store_delete (raw : Text) : Table.get? (r.delete s key).store raw
    = if r.place key = raw then none else Table.get? s.store raw :=
  Table.get?_erase ..

theorem mem_active_delete {entry : Text × Int} :
    entry ∈ (r.delete s key).active ↔ entry ∈ s.active ∧ entry.1 ≠ key :=
  Table.mem_erase

theorem lacks_delete (r : Reassembler) (s : State) (key : Text) : Lacks r (r.delete s key) key where
  entry := by rw [get?_store_delete, if_pos rfl]
  opened := fun _ h => (mem_active_delete.mp h).2 rfl

theorem sameSlot_delete (h : other ≠ key) : SameSlot r key s (r.delete s other) where
  entry := by rw [get?_store_delete, if_neg (place_ne h)]
  opened := fun _ => by rw [mem_active_delete, and_iff_left (Ne.symm h)]

/-- What `save` does: one write to the store, and a time in the index where it has none. -/
theorem save_eq_ok {b : Buffer} (h : r.save now s key b = .ok t) :
    ∃ data store, b.encode = .ok data ∧
      r.view.set s.store now key bufferVersion data = .ok store ∧
      t =
        { store
          active := if s.active.contains key then s.active else s.active.set key b.createdMs } := by
  unfold save at h
  split at h
  · cases h
  next data encoded =>
    split at h
    · cases h
    next store written =>
      cases h
      exact ⟨data, store, encoded, written, rfl⟩

theorem mem_active_save {b : Buffer} (h : r.save now s key b = .ok t) {k : Text} {created : Int} :
    (k, created) ∈ t.active ↔ (k, created) ∈ s.active ∨
      (k = key ∧ created = b.createdMs ∧ key ∉ Table.keys s.active) := by
  obtain ⟨data, store, _, _, rfl⟩ := save_eq_ok h
  show _ ∈ (if s.active.contains key then s.active else s.active.set key b.createdMs) ↔ _
  split
  next present =>
    have there := Table.contains_iff.mp present
    exact ⟨.inl, fun h => h.elim id fun new => absurd there new.2.2⟩
  next absent =>
    have fresh := mt Table.contains_iff.mpr absent
    rw [Table.set_of_absent fresh, List.mem_append, List.mem_singleton, Prod.mk.injEq]
    exact or_congr_right ⟨fun new => ⟨new.1, new.2, fresh⟩, fun new => ⟨new.1, new.2.1⟩⟩

theorem sameSlot_save {b : Buffer} (h : r.save now s other b = .ok t) (ne : other ≠ key) :
    SameSlot r key s t where
  entry := by
    obtain ⟨data, store, _, written, rfl⟩ := save_eq_ok h
    obtain ⟨bs, _, rfl⟩ := View.set_eq_ok written
    exact (Table.get?_set_of_ne _ _ (place_ne ne)).symm
  opened := by
    intro created
    rw [mem_active_save h]
    exact ⟨.inl, fun h => h.elim id fun new => absurd new.1.symm ne⟩

/-! ## Expiry -/

/-- A key is stale when the index has an old time for it. -/
theorem mem_stale_iff : key ∈ r.stale now s ↔
    ∃ created, (key, created) ∈ s.active ∧ created ≤ now - r.ttlMs := by
  simp [stale]

theorem Lacks.not_stale (h : Lacks r s key) : key ∉ r.stale now s := by
  rw [mem_stale_iff]
  rintro ⟨created, opened, _⟩
  exact h.opened created opened

/-- Pruning erases the stale keys from the index and their places from the store. -/
theorem prune_eq (r : Reassembler) (now : Int) (s : State) : r.prune now s =
    { store := Table.eraseAll s.store ((r.stale now s).map r.place)
      active := Table.eraseAll s.active (r.stale now s) } := by
  rw [prune]
  -- The stale keys are those of the state before; none is looked for while they are removed.
  generalize r.stale now s = keys
  induction keys generalizing s with
  | nil => rfl
  | cons key keys ih =>
    rw [List.foldl_cons, ih]
    rfl

theorem mem_active_prune {entry : Text × Int} :
    entry ∈ (r.prune now s).active ↔ entry ∈ s.active ∧ entry.1 ∉ r.stale now s := by
  rw [prune_eq]
  exact Table.mem_eraseAll

theorem get?_active_prune (h : key ∉ r.stale now s) :
    Table.get? (r.prune now s).active key = Table.get? s.active key := by
  rw [prune_eq]
  exact Table.get?_eraseAll_of_not_mem h

theorem mem_places_iff {keys : List Text} : r.place key ∈ keys.map r.place ↔ key ∈ keys := by
  constructor
  · intro h
    obtain ⟨other, hk, eq⟩ := List.mem_map.mp h
    exact place_injective eq ▸ hk
  · exact List.mem_map_of_mem

theorem lacks_prune (h : key ∈ r.stale now s) : Lacks r (r.prune now s) key where
  entry := by
    rw [prune_eq]
    exact Table.get?_eraseAll_of_mem (mem_places_iff.mpr h)
  opened := fun _ hc => (mem_active_prune.mp hc).2 h

theorem sameSlot_prune (h : key ∉ r.stale now s) : SameSlot r key s (r.prune now s) where
  entry := by
    rw [prune_eq]
    exact (Table.get?_eraseAll_of_not_mem (mt mem_places_iff.mp h)).symm
  opened := fun _ => by rw [mem_active_prune, and_iff_left h]

/-! ## Handling -/

theorem check_eq_ok {d : Delivery} {part : Part} (h : r.check d = .ok (part, key)) :
    Part.parse d.contents = .ok part ∧ part.index < Part.maxParts ∧
      conversationKey d.sender (d.fingerprint.getD []) part.messageId = .ok key := by
  rw [check] at h
  split at h
  · cases h
  split at h
  · cases h
  next parsed =>
    split at h
    · cases h
    next limit =>
      split at h
      · cases h
      next derived =>
        cases h
        exact ⟨parsed, Int.not_le.mp limit, derived⟩

/-- Nothing longer than a fragment may be passes the checks. -/
theorem length_of_check {d : Delivery} {part : Part} (h : r.check d = .ok (part, key)) :
    d.contents.length ≤ r.maxFragmentSize := by
  rw [check] at h
  split at h
  · cases h
  next fits => exact Int.not_lt.mp fits

theorem check_of_parts {d : Delivery} {part : Part} (length : d.contents.length ≤ r.maxFragmentSize)
    (parsed : Part.parse d.contents = .ok part) (limit : part.index < Part.maxParts)
    (derived : conversationKey d.sender (d.fingerprint.getD []) part.messageId = .ok key) :
    r.check d = .ok (part, key) := by
  rw [check, if_neg (Int.not_lt.mpr length), parsed]
  simp only [if_neg (Int.not_le.mpr limit), derived]

/-- A continuation of message nine. -/
def straggler : Delivery where
  sender := ⟨List.replicate 32 1 ++ [3]⟩
  contents := [0, 0, 0, 9, 2, 0, 1, 65, 0]

def stragglerKey : Text :=
  Hex.write (Sha256.hash (List.replicate 32 1 ++ [3] ++ [0, 0, 0, 0] ++ [] ++ [0, 0, 0, 9]))

def narrow : Reassembler where
  view := { View.shallow with path := "partition/" }
  maxFragmentSize := 64
  ttlMs := 1000

theorem check_straggler :
    narrow.check straggler = .ok (.continuation ⟨9, 2, [65]⟩, stragglerKey) :=
  check_of_parts (by decide) rfl (by decide) rfl

/-- What is refused by the checks changes nothing at all. -/
theorem handle_of_check_error {d : Delivery} {e : Refusal} (h : r.check d = .error e) :
    r.handle now s d = (.error e, s) := by
  rw [handle, h]

section Checked

variable {d : Delivery} {part : Part} {b : Buffer}

/-- What does not fit the buffer is refused after pruning. -/
theorem handle_of_extend_error {e : Refusal} (checked : r.check d = .ok (part, key))
    (h : r.extend now (r.prune now s) d part key = .error e) :
    r.handle now s d = (.error e, r.prune now s) := by
  rw [handle, checked]
  simp only [h]

theorem handle_of_save_error {e : Integer.WriteError} (checked : r.check d = .ok (part, key))
    (h : r.extend now (r.prune now s) d part key = .ok (b, none))
    (unsaved : r.save now (r.prune now s) key b = .error e) :
    r.handle now s d = (.error (.number e), r.prune now s) := by
  rw [handle, checked]
  simp only [h, unsaved]

theorem handle_of_save (checked : r.check d = .ok (part, key))
    (h : r.extend now (r.prune now s) d part key = .ok (b, none))
    (saved : r.save now (r.prune now s) key b = .ok t) : r.handle now s d = (.ok .pending, t) := by
  rw [handle, checked]
  simp only [h, saved]

theorem handle_of_message {m : Message} (checked : r.check d = .ok (part, key))
    (h : r.extend now (r.prune now s) d part key = .ok (b, some m)) :
    r.handle now s d = (.ok (.complete m b.residue), r.delete (r.prune now s) key) := by
  rw [handle, checked]
  simp only [h]

/-- What a checked part leads to: a refusal after pruning, a buffer written, or one removed. -/
theorem handle_cases (now : Int) (s : State) (checked : r.check d = .ok (part, key)) :
    (∃ e, r.handle now s d = (.error e, r.prune now s)) ∨
    (∃ b t, r.extend now (r.prune now s) d part key = .ok (b, none) ∧
      r.save now (r.prune now s) key b = .ok t ∧ r.handle now s d = (.ok .pending, t)) ∨
    (∃ b m, r.extend now (r.prune now s) d part key = .ok (b, some m) ∧
      r.handle now s d = (.ok (.complete m b.residue), r.delete (r.prune now s) key)) := by
  cases extended : r.extend now (r.prune now s) d part key with
  | error e => exact .inl ⟨e, handle_of_extend_error checked extended⟩
  | ok result =>
    obtain ⟨b, message⟩ := result
    cases message with
    | none =>
      cases saved : r.save now (r.prune now s) key b with
      | error e => exact .inl ⟨.number e, handle_of_save_error checked extended saved⟩
      | ok t => exact .inr (.inl ⟨b, t, rfl, saved, handle_of_save checked extended saved⟩)
    | some m => exact .inr (.inr ⟨b, m, rfl, handle_of_message checked extended⟩)

theorem extend_of_pending (checked : r.check d = .ok (part, key))
    (pending : (r.handle now s d).1 = .ok .pending) :
    ∃ b t, r.extend now (r.prune now s) d part key = .ok (b, none) ∧
      r.save now (r.prune now s) key b = .ok t ∧ (r.handle now s d).2 = t := by
  rcases handle_cases now s checked with ⟨e, eq⟩ | ⟨b, t, extended, saved, eq⟩ | ⟨b, m, _, eq⟩
  · rw [eq] at pending
    cases pending
  · exact ⟨b, t, extended, saved, congrArg Prod.snd eq⟩
  · rw [eq] at pending
    cases pending

theorem extend_of_complete {m : Message} {residue : Option Bytes}
    (checked : r.check d = .ok (part, key))
    (completed : (r.handle now s d).1 = .ok (.complete m residue)) :
    ∃ b, r.extend now (r.prune now s) d part key = .ok (b, some m) := by
  rcases handle_cases now s checked with ⟨e, eq⟩ | ⟨b, t, _, _, eq⟩ | ⟨b, m', extended, eq⟩
  · rw [eq] at completed
    cases completed
  · rw [eq] at completed
    cases completed
  · rw [eq] at completed
    cases completed
    exact ⟨b, extended⟩

/-- A part changes the slots of other keys by pruning only. -/
theorem sameSlot_handle (h : r.check d = .ok (part, other))
    (ne : other ≠ key) : SameSlot r key (r.prune now s) (r.handle now s d).2 := by
  rcases handle_cases now s h with ⟨e, eq⟩ | ⟨b, t, _, saved, eq⟩ | ⟨b, m, _, eq⟩
  · rw [eq]
    exact .refl _
  · rw [eq]
    exact sameSlot_save saved ne
  · rw [eq]
    exact sameSlot_delete ne

end Checked

end PartRelay.Reassembly.Reassembler
