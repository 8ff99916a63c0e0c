import PartRelay.Proofs.Reassembly.Tracking

/-!
# What holds between two operations

A reassembler that began with an empty store keeps store and index in step: one entry for each open
buffer and no others. Every entry is read back without an error as a buffer under its own key that
is not complete.
-/

namespace PartRelay.Reassembly

namespace Reassembler

variable {r : Reassembler} {now : Int} {s t : State} {key : Text}

/-! ## The raw store has no other entries -/

/-- Every raw entry is that of a key in the index. -/
def IsFiled (r : Reassembler) (s : State) : Prop :=
  ∀ raw ∈ Table.keys s.store, ∃ key ∈ Table.keys s.active, raw = r.place key

theorem isFiled_delete (h : r.IsFiled s) (key : Text) : r.IsFiled (r.delete s key) := by
  intro raw hr
  obtain ⟨stored, other⟩ := Table.mem_keys_erase.mp hr
  obtain ⟨k, listed, rfl⟩ := h raw stored
  exact ⟨k, Table.mem_keys_erase.mpr ⟨listed, fun eq => other (by rw [eq]; rfl)⟩, rfl⟩

theorem isFiled_prune (h : r.IsFiled s) (now : Int) : r.IsFiled (r.prune now s) := by
  rw [prune]
  generalize r.stale now s = keys
  induction keys generalizing s with
  | nil => exact h
  | cons key keys ih => exact ih (isFiled_delete h key)

theorem isFiled_save {b : Buffer} (h : r.IsFiled s) (saved : r.save now s key b = .ok t) :
    r.IsFiled t := by
  have listed : ∀ k, k ∈ Table.keys s.active ∨ k = key → k ∈ Table.keys t.active := by
    intro k hk
    obtain ⟨data, store, _, _, rfl⟩ := save_eq_ok saved
    show k ∈ Table.keys (if s.active.contains key then s.active else s.active.set key b.createdMs)
    split
    next present =>
      rcases hk with old | rfl
      · exact old
      · exact Table.contains_iff.mp present
    next => exact Table.mem_keys_set.mpr hk
  intro raw hr
  obtain ⟨data, store, _, written, rfl⟩ := save_eq_ok saved
  obtain ⟨bs, _, rfl⟩ := View.set_eq_ok written
  rcases Table.mem_keys_set.mp hr with old | rfl
  · obtain ⟨k, before, rfl⟩ := h raw old
    exact ⟨k, listed k (.inl before), rfl⟩
  · exact ⟨key, listed key (.inr rfl), rfl⟩

theorem isFiled_handle (h : r.IsFiled s) (d : Delivery) : r.IsFiled (r.handle now s d).2 := by
  cases checked : r.check d with
  | error e =>
    rw [handle_of_check_error checked]
    exact h
  | ok result =>
    obtain ⟨part, key⟩ := result
    have pruned := isFiled_prune h now
    rcases handle_cases now s checked with
      ⟨e, eq⟩ | ⟨b, t, _, saved, eq⟩ | ⟨b, m, _, eq⟩
    · rw [eq]
      exact pruned
    · rw [eq]
      exact isFiled_save pruned saved
    · rw [eq]
      exact isFiled_delete pruned key

theorem isFiled_run {w : World} (h : r.IsFiled w.state) (ops : List Operation) :
    r.IsFiled (r.run w ops).state := by
  induction ops generalizing w with
  | nil => exact h
  | cons op ops ih =>
    refine ih ?_
    cases op with
    | deliver d => exact isFiled_handle h d
    | prune => exact isFiled_prune h w.now
    | advance ms => exact h

end Reassembler

/-! ## Open buffers -/

namespace Buffer

/-- A buffer as it stands in the store between two operations. -/
structure IsOpen (b : Buffer) (key : Text) (now : Int) : Prop where
  past : b.createdMs ≤ now
  key : conversationKey b.sender b.fingerprint b.messageId = .ok key
  indices : ∀ index ∈ b.parts.keys, 0 ≤ index ∧ index ≤ 254
  count : b.numParts = .null ∨ ∃ n, b.numParts = .int n ∧ 1 ≤ n ∧ n ≤ 255 ∧
    ∀ index ∈ b.parts.keys, 0 ≤ index ∧ index ≤ n - 1
  first : 0 ∈ b.parts.keys ↔ b.numParts ≠ .null
  unfinished : b.complete? = .ok none

theorem Reflects.isOpen {b : Buffer} {win : Window} {opener : Call} {r : Reassembler} {key : Text}
    {now : Int} (h : b.Reflects win opener) (unfinished : ¬ win.IsComplete)
    (past : opener.now ≤ now) (checked : r.check opener.delivery = .ok (opener.part, key)) :
    b.IsOpen key now where
  past := h.openedBy.createdMs ▸ past
  key := by
    obtain ⟨_, _, derived⟩ := Reassembler.check_eq_ok checked
    rw [h.openedBy.sender, h.openedBy.fingerprint, h.openedBy.messageId, derived]
  indices := by
    intro index hi
    obtain ⟨nonneg, limit⟩ := h.sound.indices index hi
    exact ⟨nonneg, Int.le_of_lt_add_one limit⟩
  count := by
    cases h.sound.count with
    | unknown count first => exact .inl count
    | known n count range first below =>
      refine .inr ⟨n, count, range.1, range.2, fun index hi => ?_⟩
      exact ⟨(h.sound.indices index hi).1, Int.le_sub_one_of_lt (below index hi)⟩
  first := by
    cases h.sound.count with
    | unknown count first => simp [count, first]
    | known n count range first below => simp [count, first]
  unfinished := h.sound.complete?_of_not_isComplete (mt h.gathers.isComplete_iff.mp unfinished)

end Buffer

namespace Reassembler

variable {r : Reassembler} {s : State} {key : Text}

theorem load_eq_some {b : Buffer} (h : r.load s key = .ok (some b)) :
    ∃ record, r.view.get s.store key bufferVersion = .ok record ∧
      Buffer.decode r.view.levels.most record.data = .ok b := by
  rw [load] at h
  split at h
  · cases h
  · cases h
  next record found =>
    split at h
    · cases h
    next decoded =>
      cases h
      exact ⟨record, found, decoded⟩

/-- What is read under a key has a raw entry. -/
theorem place_mem_of_get {record : Record} (h : r.view.get s.store key bufferVersion = .ok record) :
    r.place key ∈ Table.keys s.store := by
  refine Decidable.byContradiction fun absent => ?_
  rw [View.get_of_absent (Table.get?_eq_none_iff.mpr absent)] at h
  cases h

theorem place_of_create {root : View} {maxFragmentSize ttlMs : Int}
    (made : create root maxFragmentSize ttlMs = .ok r) (key : Text) :
    r.place key = root.path ++ "partition/" ++ key ++ "_v0" := by
  obtain ⟨child, _⟩ := create_eq_ok made
  rw [place, View.rawKey, (View.child_eq_ok child).1]
  simp only [List.append_assoc]
  rfl

/-! ## Store and index in step -/

structure InStep (r : Reassembler) (w : World) : Prop where
  listed : ∀ key, key ∈ Table.keys w.state.active ↔ r.place key ∈ Table.keys w.state.store
  filed : r.IsFiled w.state
  entries : ∀ key created, Table.get? w.state.active key = some created →
    ∃ record b, r.view.get w.state.store key bufferVersion = .ok record ∧
      Buffer.decode r.view.levels.most record.data = .ok b ∧ b.createdMs = created ∧
      b.IsOpen key w.now

/-- A slot that the index lists holds an open buffer. -/
theorem Tracks.entry {win : Window} {now created : Int} (h : Tracks r s key win)
    (found : Table.get? s.active key = some created)
    (calls : ∀ call ∈ win, call.now ≤ now ∧ r.check call.delivery = .ok (call.part, key)) :
    ∃ record b, r.view.get s.store key bufferVersion = .ok record ∧
      Buffer.decode r.view.levels.most record.data = .ok b ∧ b.createdMs = created ∧
      b.IsOpen key now := by
  have opened := Table.mem_of_get? found
  cases h with
  | nothing lacks => exact absurd opened (lacks.opened created)
  | buffer opener win b keeps reflects unfinished =>
    obtain ⟨record, read, decoded⟩ := load_eq_some keeps.loaded
    obtain ⟨past, checked⟩ := calls opener List.mem_cons_self
    exact ⟨record, b, read, decoded, ((keeps.opened created).mp opened).symm,
      reflects.isOpen unfinished past checked⟩

/-- Every run from the empty store keeps store and index in step. -/
theorem inStep_run {root : View} {maxFragmentSize ttlMs : Int}
    (made : create root maxFragmentSize ttlMs = .ok r) (start : Int) {ops : List Operation}
    (valid : ∀ op ∈ ops, op.HasValidSender) :
    (∀ key, r.place key = root.path ++ "partition/" ++ key ++ "_v0") ∧
      r.InStep (r.run ⟨start, {}⟩ ops) := by
  have filed : r.IsFiled (r.run ⟨start, {}⟩ ops).state :=
    isFiled_run (fun _ h => absurd h List.not_mem_nil) ops
  have entries : ∀ key created,
      Table.get? (r.run ⟨start, {}⟩ ops).state.active key = some created →
      ∃ record b, r.view.get (r.run ⟨start, {}⟩ ops).state.store key bufferVersion = .ok record ∧
        Buffer.decode r.view.levels.most record.data = .ok b ∧ b.createdMs = created ∧
        b.IsOpen key (r.run ⟨start, {}⟩ ops).now := by
    intro key created found
    have tracks : Tracks r (r.run ⟨start, {}⟩ ops).state key
        (r.window key (r.history ⟨start, {}⟩ ops)) :=
      tracks_window (lacks_empty r key) fun _ _ done _ => valid _ done
    refine tracks.entry found fun call hc => ?_
    obtain ⟨_, _, past, checked⟩ := mem_window hc
    exact ⟨past, checked⟩
  -- A listed key has a raw entry because one is read for it; a raw entry has a listed key because
  -- it is filed, and no two keys share a place.
  refine ⟨place_of_create made, fun key => ⟨fun listed => ?_, fun stored => ?_⟩, filed, entries⟩
  · obtain ⟨created, found⟩ := Table.exists_of_mem_keys listed
    obtain ⟨record, b, read, _⟩ := entries key created found
    exact place_mem_of_get read
  · obtain ⟨k, listed, same⟩ := filed _ stored
    rw [place_injective same]
    exact listed

theorem inStep_run_straggler :
    (∀ key, narrow.place key = ([] : Text) ++ "partition/" ++ key ++ "_v0") ∧
      narrow.InStep (narrow.run ⟨0, {}⟩ [.deliver straggler, .advance 5, .prune]) := by
  have made : create View.shallow 64 1000 = .ok narrow := rfl
  refine inStep_run made 0 fun op ho => ?_
  rw [List.mem_cons, List.mem_cons, List.mem_singleton] at ho
  rcases ho with rfl | rfl | rfl
  · exact rfl
  · trivial
  · trivial

end Reassembler

end PartRelay.Reassembly
