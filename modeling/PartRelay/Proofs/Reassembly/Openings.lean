import PartRelay.Proofs.Reassembly.Invariant

/-!
# Since when a buffer is open

A buffer has the age of the part that opened its window, and it holds nothing but what parts of the
window have brought. This is so for every sender: a buffer that cannot be read back has its age as
well.
-/

namespace PartRelay.Reassembly

/-! ## What a buffer holds -/

namespace Buffer

/-- A buffer into which only parts of a window have come, though not for certain all of them. -/
structure HoldsOnly (b : Buffer) (win : Window) : Prop where
  count : b.numParts = .null ∨ ∃ n, b.numParts = .int n
  distinct : b.parts.keys.Nodup
  indices : ∀ index ∈ b.parts.keys, Integer.isWritable index = true
  brought : ∀ index contents, (index, contents) ∈ b.parts →
    ∃ call ∈ win, call.part.index = index ∧ call.part.contents = contents

variable {b b' : Buffer} {win : Window} {part : Part} {residue : Option Bytes} {levels : Nat}

theorem holdsOnly_opened (sender : Sender) (fingerprint : Bytes) (messageId createdMs : Int)
    (win : Window) : HoldsOnly { sender, fingerprint, messageId, createdMs } win where
  count := .inl rfl
  distinct := List.Pairwise.nil
  indices := fun _ hi => absurd hi List.not_mem_nil
  brought := fun _ _ hp => absurd hp List.not_mem_nil

theorem HoldsOnly.isLeaf (h : b.HoldsOnly win) : b.numParts.IsLeaf := by
  rcases h.count with count | ⟨n, count⟩
  · rw [count]
    exact ⟨trivial, rfl⟩
  · rw [count]
    exact ⟨trivial, rfl⟩

theorem HoldsOnly.isStorable (h : b.HoldsOnly win) (valid : b.sender.IsValid) : b.IsStorable :=
  ⟨valid, h.isLeaf, h.distinct, h.indices⟩

theorem HoldsOnly.sorted (h : b.HoldsOnly win) : b.sorted.HoldsOnly win where
  count := h.count
  distinct := nodup_keys_sortParts h.distinct
  indices := fun index hi => h.indices index (mem_keys_sorted.mp hi)
  brought := fun index contents hp =>
    h.brought index contents ((sortParts_perm b.parts).mem_iff.mp hp)

theorem insertFirst_eq_ok {p : FirstPart} (h : b.insertFirst p residue = .ok b') :
    b' = b.extended (.first p) residue := by
  unfold insertFirst at h
  extract_lets isNew at h
  split at h
  · cases h
  split at h
  · cases h
  cases h
  rfl

/-- What is taken into a buffer is one part more, whatever the buffer was. -/
theorem insert_eq_ok (h : b.insert part residue = .ok b') : b' = b.extended part residue := by
  cases part with
  | first p =>
    rw [insert] at h
    cases inserted : b.insertFirst p residue with
    | error e =>
      rw [inserted] at h
      cases h
    | ok new =>
      rw [inserted, mapError_ok, Except.ok.injEq] at h
      exact h ▸ insertFirst_eq_ok inserted
  | continuation p =>
    rw [insert] at h
    split at h
    · cases h
    · cases h
    · cases h
      rfl

theorem createdMs_extended (b : Buffer) (part : Part) (residue : Option Bytes) :
    (b.extended part residue).createdMs = b.createdMs := by
  cases part <;> rfl

theorem HoldsOnly.extended (h : b.HoldsOnly win) (call : Call) (residue : Option Bytes)
    (writable : Integer.isWritable call.part.index = true) :
    (b.extended call.part residue).HoldsOnly (win ++ [call]) where
  count := by
    cases call.part with
    | first p => exact .inr ⟨p.numParts, rfl⟩
    | continuation p => exact h.count
  distinct := nodup_keys_extended h.distinct _ _
  indices := by
    intro index hi
    rcases mem_keys_extended.mp hi with old | rfl
    · exact h.indices index old
    · exact writable
  brought := by
    intro index contents hp
    have found := Table.get?_of_mem (parts_extended _ residue ▸ Table.nodup_keys_set h.distinct _ _)
      hp
    rw [parts_extended, Table.get?_set] at found
    split at found
    next same =>
      cases found
      exact ⟨call, List.mem_append_right _ List.mem_cons_self, same, rfl⟩
    next =>
      obtain ⟨old, ho, facts⟩ := h.brought index contents (Table.mem_of_get? found)
      exact ⟨old, List.mem_append_left _ ho, facts⟩

/-- What is read of a stored buffer is that buffer, as far as it is read at all. -/
theorem HoldsOnly.of_decode_encode (h : b.HoldsOnly win) {bs : Bytes} (encoded : b.encode = .ok bs)
    (decoded : decode levels bs = .ok b') : b'.HoldsOnly win := by
  rw [sorted_of_decode h.isLeaf h.distinct h.indices encoded decoded]
  exact h.sorted

/-! ## Messages -/

/-- A message comes of a buffer that has a number of parts and every index below it. -/
theorem complete?_eq_some {m : Message} (h : b.complete? = .ok (some m)) :
    ∃ n, m = b.message n ∧ ∀ index, 0 ≤ index → index < n → index ∈ b.parts.keys := by
  rw [complete?] at h
  split at h
  · cases h
  · cases h
  next n counted =>
    split at h
    next all =>
      cases h
      exact ⟨n, rfl, holdsBelow_iff.mp all⟩
    next => cases h

/-- Calls of a window that bring the indices from zero on, in order. -/
structure Brings (calls : List Call) (win : Window) : Prop where
  among : ∀ call ∈ calls, call ∈ win
  indices : calls.map (·.part.index) = (List.range calls.length).map Int.ofNat

theorem HoldsOnly.exists_brings (h : b.HoldsOnly win) (n : Nat)
    (all : ∀ i < n, (i : Int) ∈ b.parts.keys) :
    ∃ calls, Brings calls win ∧ calls.length = n ∧
      b.payload n = calls.flatMap (·.part.contents) := by
  -- One more index is one more call, and its contents come last.
  induction n with
  | zero => exact ⟨[], ⟨fun _ none => absurd none List.not_mem_nil, rfl⟩, rfl, rfl⟩
  | succ n ih =>
    obtain ⟨calls, brings, rfl, payload⟩ := ih fun i hi => all i (by omega)
    obtain ⟨contents, found⟩ := Table.exists_of_mem_keys (all calls.length (by omega))
    obtain ⟨call, hc, index, rfl⟩ := h.brought _ _ (Table.mem_of_get? found)
    refine ⟨calls ++ [call], ⟨?_, ?_⟩, by simp, ?_⟩
    · intro c hc'
      rcases List.mem_append.mp hc' with old | new
      · exact brings.among c old
      · exact List.mem_singleton.mp new ▸ hc
    · rw [List.map_append, brings.indices, List.length_append, List.length_singleton,
        List.range_succ, List.map_append, List.map_singleton, List.map_singleton, index]
      rfl
    · rw [List.flatMap_append, ← payload, Buffer.payload, Buffer.payload, Int.toNat_natCast,
        Int.toNat_natCast, List.range_succ, List.flatMap_append, List.flatMap_singleton,
        List.flatMap_singleton, found]
      rfl

/-- The payload of a message is put together from calls of the window. -/
theorem HoldsOnly.payload {m : Message} (h : b.HoldsOnly win)
    (complete : b.complete? = .ok (some m)) :
    ∃ calls, Brings calls win ∧ m.payload = calls.flatMap (·.part.contents) := by
  obtain ⟨n, rfl, all⟩ := complete?_eq_some complete
  obtain ⟨calls, brings, _, payload⟩ :=
    h.exists_brings n.toNat fun i hi => all i (by omega) (by omega)
  refine ⟨calls, brings, ?_⟩
  rw [← payload, message, Buffer.payload, Buffer.payload, Int.toNat_natCast]

end Buffer

namespace Reassembler

variable {r : Reassembler} {now : Int} {s t : State} {key : Text} {win : Window} {d : Delivery}
  {part : Part} {b : Buffer}

/-! ## Dated slots -/

/-- The slot of a key is empty with its window, and else dated by the call that opened it. -/
inductive Dated (r : Reassembler) (s : State) (key : Text) : Window → Prop where
  | nothing (lacks : Lacks r s key) : Dated r s key []
  | opened (opener : Call) (win : Window) (stored : r.place key ∈ Table.keys s.store)
      (listed : ∀ created, (key, created) ∈ s.active ↔ created = opener.now)
      (holds : ∀ b, r.load s key = .ok (some b) → b.HoldsOnly (opener :: win)) :
      Dated r s key (opener :: win)

theorem SameSlot.stored_iff (h : SameSlot r key s t) :
    r.place key ∈ Table.keys s.store ↔ r.place key ∈ Table.keys t.store := by
  rw [← Table.contains_iff, Table.contains, h.entry, ← Table.contains, Table.contains_iff]

theorem Dated.congr (h : Dated r s key win) (same : SameSlot r key s t) : Dated r t key win := by
  cases h with
  | nothing lacks => exact .nothing (lacks.congr same)
  | opened opener win stored listed holds =>
    exact .opened opener win (same.stored_iff.mp stored)
      (fun created => (same.opened created).symm.trans (listed created))
      (fun b loaded => holds b (same.load.trans loaded))

theorem Dated.prune (h : Dated r s key win) (now : Int) :
    Dated r (r.prune now s) key (win.live r.ttlMs now) := by
  cases h with
  | nothing lacks => exact .nothing (lacks.congr (sameSlot_prune lacks.not_stale))
  | opened opener win stored listed holds =>
    have stale : key ∈ r.stale now s ↔ opener.now + r.ttlMs ≤ now := by
      simp only [mem_stale_iff, listed, exists_eq_left]
      omega
    rw [Window.live]
    split
    next expired => exact .nothing (lacks_prune (stale.mpr expired))
    next young =>
      exact (Dated.opened opener win stored listed holds).congr (sameSlot_prune (mt stale.mp young))

/-- The buffer that a part goes into holds what the window has brought, and it is dated by the part
if the window is empty. -/
theorem Dated.bufferFor (h : Dated r s key win) (opened : r.bufferFor now s d part key = .ok b) :
    b.HoldsOnly win ∧ (win = [] → b.createdMs = now) := by
  cases h with
  | nothing lacks =>
    simp only [Reassembler.bufferFor, lacks.load] at opened
    cases opened
    exact ⟨Buffer.holdsOnly_opened .., fun _ => rfl⟩
  | opened opener win stored listed holds =>
    refine ⟨?_, fun none => absurd none (List.cons_ne_nil opener win)⟩
    rw [Reassembler.bufferFor] at opened
    split at opened
    · cases opened
    next loaded =>
      cases opened
      exact holds b loaded
    next =>
      cases opened
      exact Buffer.holdsOnly_opened ..

theorem extend_eq_ok {message : Option Message}
    (h : r.extend now s d part key = .ok (b, message)) :
    ∃ opened, r.bufferFor now s d part key = .ok opened ∧ b = opened.extended part d.residue ∧
      b.complete? = .ok message := by
  rw [extend] at h
  split at h
  · cases h
  next opened found =>
    split at h
    · cases h
    next inserted =>
      split at h
      · cases h
      next completion =>
        cases h
        exact ⟨opened, found, Buffer.insert_eq_ok inserted, completion⟩

/-- A part that the checks let pass leaves a buffer of its window, dated as before. -/
theorem Dated.extended {message : Option Message} (h : Dated r s key win)
    (checked : r.check d = .ok (part, key))
    (extended : r.extend now s d part key = .ok (b, message)) :
    b.HoldsOnly (win ++ [⟨now, d, part⟩]) ∧ (win = [] → b.createdMs = now) := by
  obtain ⟨parsed, limit, _⟩ := check_eq_ok checked
  obtain ⟨opened, found, rfl, _⟩ := extend_eq_ok extended
  obtain ⟨holds, date⟩ := h.bufferFor found
  have small : part.index < 255 := limit
  have writable : Integer.isWritable part.index = true :=
    Integer.isWritable_of_lt (Part.parse_inBounds parsed).index.1 (by omega)
  refine ⟨holds.extended ⟨now, d, part⟩ _ writable, fun none => ?_⟩
  rw [Buffer.createdMs_extended, date none]

/-- What is read after a buffer was saved was decoded from its bytes. -/
theorem load_of_save {b' : Buffer} (saved : r.save now s key b = .ok t)
    (loaded : r.load t key = .ok (some b')) :
    ∃ bs, b.encode = .ok bs ∧ Buffer.decode r.view.levels.most bs = .ok b' := by
  obtain ⟨data, store, encoded, written, rfl⟩ := save_eq_ok saved
  obtain ⟨record, read, decoded⟩ := load_eq_some loaded
  rw [View.get_of_set written] at read
  cases read
  exact ⟨data, encoded, decoded⟩

theorem stored_of_save (saved : r.save now s key b = .ok t) :
    r.place key ∈ Table.keys t.store := by
  obtain ⟨data, store, _, written, rfl⟩ := save_eq_ok saved
  obtain ⟨bs, _, rfl⟩ := View.set_eq_ok written
  exact Table.mem_keys_set.mpr (.inr rfl)

/-- Saving the buffer of a window and a call dates the slot by the opener, old or new. -/
theorem Dated.save (h : Dated r s key win) {call : Call} (saved : r.save now s key b = .ok t)
    (holds : b.HoldsOnly (win ++ [call])) (date : win = [] → b.createdMs = call.now) :
    Dated r t key (win ++ [call]) := by
  have read : ∀ b', r.load t key = .ok (some b') → b'.HoldsOnly (win ++ [call]) := by
    intro b' loaded
    obtain ⟨bs, encoded, decoded⟩ := load_of_save saved loaded
    exact holds.of_decode_encode encoded decoded
  cases h with
  | nothing lacks =>
    refine .opened call [] (stored_of_save saved) (fun created => ?_) read
    have unlisted : key ∉ Table.keys s.active := by
      intro listed
      obtain ⟨time, found⟩ := Table.exists_of_mem_keys listed
      exact lacks.opened time (Table.mem_of_get? found)
    rw [mem_active_save saved, date rfl]
    simp [lacks.opened created, unlisted]
  | opened opener win stored listed _ =>
    refine .opened opener _ (stored_of_save saved) (fun created => ?_) read
    have present : key ∈ Table.keys s.active :=
      List.mem_map_of_mem ((listed opener.now).mpr rfl)
    rw [mem_active_save saved, ← listed created]
    simp [present]

theorem Dated.handle (h : Dated r s key win) (checked : r.check d = .ok (part, key)) :
    Dated r (r.handle now s d).2 key
      (r.after key win ⟨now, .deliver d, .handled (r.handle now s d).1⟩) := by
  have pruned := h.prune now
  rcases handle_cases now s checked with ⟨e, eq⟩ | ⟨b, t, extended, saved, eq⟩ | ⟨b, m, _, eq⟩
  · rw [eq]
    simp only [after, checked, if_true]
    exact pruned
  · rw [eq]
    simp only [after, checked, if_true]
    obtain ⟨holds, date⟩ := pruned.extended checked extended
    exact pruned.save saved holds date
  · rw [eq]
    simp only [after, checked, if_true]
    exact .nothing (lacks_delete ..)

end Reassembler

end PartRelay.Reassembly
