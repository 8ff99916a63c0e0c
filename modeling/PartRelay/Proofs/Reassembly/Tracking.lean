import PartRelay.Proofs.Reassembly.Slots
import PartRelay.Proofs.Reassembly.Window

/-!
# Slots follow windows

The slot of a key follows its window: empty with it, and else holding one buffer that gathers the
window and is not complete. Every operation leads from a slot and a window that agree to a slot and
a window that agree, whatever stands under other keys.
-/

namespace PartRelay.Reassembly

/-! ## Buffers of a window -/

namespace Buffer

/-- Whose buffer it is, and since when: what the call says that opened it. -/
structure OpenedBy (b : Buffer) (call : Call) : Prop where
  sender : b.sender = call.delivery.sender
  fingerprint : b.fingerprint = call.delivery.fingerprint.getD []
  messageId : b.messageId = call.part.messageId
  createdMs : b.createdMs = call.now

/-- A sound buffer that `opener` opened and that gathers the window. -/
structure Reflects (b : Buffer) (win : Window) (opener : Call) : Prop where
  sound : b.IsSound
  openedBy : b.OpenedBy opener
  gathers : b.Gathers win

variable {b : Buffer} {win : Window} {opener call : Call}

theorem Reflects.sorted (h : b.Reflects win opener) : b.sorted.Reflects win opener where
  sound := h.sound.sorted
  openedBy :=
    ⟨h.openedBy.sender, h.openedBy.fingerprint, h.openedBy.messageId, h.openedBy.createdMs⟩
  gathers := h.gathers.sorted h.sound.distinct

theorem OpenedBy.extended (h : b.OpenedBy opener) (part : Part) (residue : Option Bytes) :
    (b.extended part residue).OpenedBy opener := by
  cases part <;> exact ⟨h.sender, h.fingerprint, h.messageId, h.createdMs⟩

theorem Reflects.extended (h : b.Reflects win opener) (call : Call) (bounds : call.part.InBounds)
    (limit : call.part.index < Part.maxParts) (admits : win.Admits call.part) :
    (b.extended call.part call.delivery.residue).Reflects (win ++ [call]) opener where
  sound := h.sound.extended bounds limit (h.gathers.admits_iff.mpr admits) _
  openedBy := h.openedBy.extended _ _
  gathers := h.gathers.extended (h.gathers.admits_iff.mpr admits)

/-- The message of a complete window: the latest contents, what the latest first part says, and
whose it is. -/
theorem Reflects.complete? (h : b.Reflects win opener) (complete : win.IsComplete) :
    ∃ call p, win.heading? = some (call, p) ∧ b.residue = call.delivery.residue ∧
      b.complete? = .ok (some
        { sender := opener.delivery.sender
          payload := win.payload p.numParts
          messageType := p.messageType
          timestampNs := p.timestampNs
          messageId := opener.part.messageId
          fingerprint := opener.delivery.fingerprint.getD [] }) := by
  have known := complete
  obtain ⟨n, declared, _⟩ := known
  obtain ⟨⟨call, p⟩, heading⟩ := Window.heading?_of_declares declared
  obtain ⟨type, time, residue⟩ := h.gathers.heading call p heading
  have count := (h.gathers.declared _).mpr (Window.declares_of_heading? heading)
  refine ⟨call, p, heading, residue, ?_⟩
  rw [complete?_of_isComplete count (h.gathers.isComplete_iff.mpr complete), message,
    h.gathers.payload_eq, type, time, h.openedBy.sender, h.openedBy.messageId,
    h.openedBy.fingerprint]

end Buffer

namespace Reassembler

variable {r : Reassembler} {now : Int} {s t : State} {key : Text} {win : Window}

/-! ## Relations that runs keep -/

/-- A relation between the states and the windows of a key that no operation breaks, if what is
delivered for the key has a property. -/
structure IsKept (r : Reassembler) (key : Text) (P : Delivery → Prop)
    (R : State → Window → Prop) : Prop where
  congr : ∀ {s t win}, R s win → SameSlot r key s t → R t win
  prune : ∀ {s win}, R s win → ∀ now, R (r.prune now s) (win.live r.ttlMs now)
  handle : ∀ {now s win d part}, R s win → P d → r.check d = .ok (part, key) →
    R (r.handle now s d).2 (r.after key win ⟨now, .deliver d, .handled (r.handle now s d).1⟩)

section Kept

variable {P : Delivery → Prop} {R : State → Window → Prop}

theorem IsKept.step (kept : IsKept r key P R) {w : World} (h : R w.state win)
    {op : Operation}
    (valid : ∀ d part, op = .deliver d → r.check d = .ok (part, key) → P d) :
    R (r.step w op).2.state (r.after key win ⟨w.now, op, (r.step w op).1⟩) := by
  cases op with
  | advance ms => exact h
  | prune => exact kept.prune h w.now
  | deliver d =>
    cases checked : r.check d with
    | error e =>
      show R (r.handle w.now w.state d).2 _
      rw [handle_of_check_error checked]
      simp only [after, checked]
      exact h
    | ok result =>
      obtain ⟨part, other⟩ := result
      by_cases same : other = key
      · subst same
        exact kept.handle h (valid d part rfl checked) checked
      · simp only [after, checked, if_neg same]
        exact kept.congr (kept.prune h w.now) (sameSlot_handle checked same)

theorem IsKept.run (kept : IsKept r key P R) {w : World} (h : R w.state win)
    {ops : List Operation}
    (valid : ∀ d part, .deliver d ∈ ops → r.check d = .ok (part, key) → P d) :
    R (r.run w ops).state ((r.history w ops).foldl (r.after key) win) := by
  -- Slot and window go through the run together, one operation at a time.
  induction ops generalizing w win with
  | nil => exact h
  | cons op ops ih =>
    refine ih (kept.step h fun d part eq => valid d part (eq ▸ List.mem_cons_self)) ?_
    exact fun d part later => valid d part (List.mem_cons_of_mem _ later)

end Kept

/-! ## Slots that hold a buffer -/

/-- A state that gives a buffer back under a key, and the time when it was opened. -/
structure Keeps (r : Reassembler) (s : State) (key : Text) (b : Buffer) : Prop where
  loaded : r.load s key = .ok (some b)
  opened : ∀ created, (key, created) ∈ s.active ↔ created = b.createdMs

theorem Keeps.congr {b : Buffer} (h : Keeps r s key b) (same : SameSlot r key s t) :
    Keeps r t key b where
  loaded := same.load ▸ h.loaded
  opened := fun created => (same.opened created).symm.trans (h.opened created)

/-- What is saved is read back, its parts in the order of the store. -/
theorem load_save {b : Buffer} (saved : r.save now s key b = .ok t) (storable : b.IsStorable) :
    r.load t key = .ok (some b.sorted) := by
  obtain ⟨data, store, encoded, written, rfl⟩ := save_eq_ok saved
  rw [load, View.get_of_set written]
  simp only [Buffer.decode_encode storable encoded r.view.levels.two_le]

theorem keeps_save {b : Buffer} (saved : r.save now s key b = .ok t) (storable : b.IsStorable)
    (opened : ∀ created, (key, created) ∈ s.active → created = b.createdMs) :
    Keeps r t key b.sorted where
  loaded := load_save saved storable
  opened := by
    intro created
    rw [mem_active_save saved]
    constructor
    · rintro (old | ⟨_, new, _⟩)
      · exact opened created old
      · exact new
    · intro same
      -- A time that the index had before is the buffer's own, so that it makes no odds which stays.
      by_cases present : key ∈ Table.keys s.active
      · obtain ⟨time, found⟩ := Table.exists_of_mem_keys present
        have entry := Table.mem_of_get? found
        rw [opened time entry] at entry
        rw [same]
        exact .inl entry
      · exact .inr ⟨rfl, same, present⟩

theorem save_of_encoded (r : Reassembler) (s : State) (key : Text) {b : Buffer} {data : Bytes}
    (encoded : b.encode = .ok data) (written : Integer.isWritable now = true) :
    ∃ t, r.save now s key b = .ok t := by
  obtain ⟨store, set⟩ := View.set_ok r.view s.store key data
    (Integer.isWritable_of_lt (n := bufferVersion) (Int.le_refl 0) (by decide)) written
  unfold save
  simp only [encoded, set]
  exact ⟨_, rfl⟩

theorem save_ok (r : Reassembler) (s : State) (key : Text) {b : Buffer} (sound : b.IsSound)
    (created : Integer.isWritable b.createdMs = true) (written : Integer.isWritable now = true) :
    ∃ t, r.save now s key b = .ok t := by
  obtain ⟨data, encoded⟩ := sound.encode_ok created
  exact save_of_encoded r s key encoded written

theorem save_of_unwritable (r : Reassembler) (s : State) (key : Text) (b : Buffer)
    (h : Integer.isWritable now = false) : ∃ e, r.save now s key b = .error e := by
  unfold save
  cases b.encode with
  | error e => exact ⟨e, rfl⟩
  | ok bs =>
    refine ⟨.tooLong, ?_⟩
    simp only [View.set_of_unwritable _ _ _ _ _ h]

/-! ## Following a window -/

/-- The slot of a key agrees with a window of it. -/
inductive Tracks (r : Reassembler) (s : State) (key : Text) : Window → Prop where
  | nothing (lacks : Lacks r s key) : Tracks r s key []
  | buffer (opener : Call) (win : Window) (b : Buffer) (keeps : Keeps r s key b)
      (reflects : b.Reflects (opener :: win) opener)
      (unfinished : ¬ Window.IsComplete (opener :: win)) : Tracks r s key (opener :: win)

theorem Tracks.congr (h : Tracks r s key win) (same : SameSlot r key s t) : Tracks r t key win := by
  cases h with
  | nothing lacks => exact .nothing (lacks.congr same)
  | buffer opener win b keeps reflects unfinished =>
    exact .buffer opener win b (keeps.congr same) reflects unfinished

theorem Tracks.prune (h : Tracks r s key win) (now : Int) :
    Tracks r (r.prune now s) key (win.live r.ttlMs now) := by
  cases h with
  | nothing lacks => exact .nothing (lacks.congr (sameSlot_prune lacks.not_stale))
  | buffer opener win b keeps reflects unfinished =>
    -- What is in the index for the key is the time of the call that opened the window.
    have stale : key ∈ r.stale now s ↔ opener.now + r.ttlMs ≤ now := by
      rw [mem_stale_iff, ← reflects.openedBy.createdMs]
      constructor
      · rintro ⟨created, opened, expired⟩
        have same := (keeps.opened created).mp opened
        omega
      · intro expired
        exact ⟨b.createdMs, (keeps.opened _).mpr rfl, by omega⟩
    rw [Window.live]
    split
    next expired => exact .nothing (lacks_prune (stale.mpr expired))
    next young =>
      exact .buffer opener win b (keeps.congr (sameSlot_prune (mt stale.mp young))) reflects
        unfinished

/-! ## A part for the key -/

section Delivery

variable {d : Delivery} {part : Part} {b : Buffer} {opener : Call}

/-- The buffer that a part goes into reflects the window; where that is empty the part opens it. -/
theorem Tracks.bufferFor (h : Tracks r s key win) (valid : d.sender.IsValid)
    (checked : r.check d = .ok (part, key)) (now : Int) :
    ∃ b, r.bufferFor now s d part key = .ok b ∧ b.Reflects win (win.headD ⟨now, d, part⟩) ∧
      ∀ created, (key, created) ∈ s.active → created = b.createdMs := by
  cases h with
  | nothing lacks =>
    obtain ⟨parsed, _, _⟩ := check_eq_ok checked
    have id := (Part.parse_inBounds parsed).messageId
    have opened : r.bufferFor now s d part key = .ok
        { sender := d.sender
          fingerprint := d.fingerprint.getD []
          messageId := part.messageId
          createdMs := now } := by
      simp only [Reassembler.bufferFor, lacks.load]
    refine ⟨_, opened, ⟨?_, ⟨rfl, rfl, rfl, rfl⟩, ?_⟩, ?_⟩
    · exact Buffer.isSound_opened valid (Integer.isWritable_of_lt id.1 (by omega)) _ _
    · exact Buffer.gathers_nil rfl rfl
    · exact fun created opened => absurd opened (lacks.opened created)
  | buffer opener win b keeps reflects unfinished =>
    exact ⟨b, by simp only [Reassembler.bufferFor, keeps.loaded], reflects,
      fun created => (keeps.opened created).mp⟩

/-- What a part is refused for that does not agree with the window. -/
def IsMisfit (e : Refusal) : Part → Prop
  | .first _ => ∃ conflict, e = .conflict conflict
  | .continuation p => ∃ shown, e = .part (.indexOutOfRange p.index shown)

theorem extend_refused (opened : r.bufferFor now s d part key = .ok b)
    (reflects : b.Reflects win opener) (refused : ¬ win.Admits part) :
    ∃ e, r.extend now s d part key = .error e ∧ IsMisfit e part := by
  have misfit := mt reflects.gathers.admits_iff.mp refused
  rw [extend, opened]
  cases part with
  | first p =>
    obtain ⟨conflict, inserted⟩ := reflects.sound.insert_first_of_not_admits misfit d.residue
    simp only [inserted]
    exact ⟨_, rfl, conflict, rfl⟩
  | continuation p =>
    simp only [reflects.sound.insert_continuation_of_not_admits misfit d.residue]
    exact ⟨_, rfl, _, rfl⟩

theorem extend_admitted (opened : r.bufferFor now s d part key = .ok b)
    (reflects : b.Reflects win opener) (admits : win.Admits part) {message : Option Message}
    (completion : (b.extended part d.residue).complete? = .ok message) :
    r.extend now s d part key = .ok (b.extended part d.residue, message) := by
  have fits := reflects.gathers.admits_iff.mpr admits
  rw [extend, opened]
  simp only [reflects.sound.insert_of_admits fits d.residue, completion]

/-- The buffer after a checked part that agrees reflects the window with its call. -/
theorem reflects_extended (checked : r.check d = .ok (part, key))
    (reflects : b.Reflects win opener) (admits : win.Admits part) (now : Int) :
    (b.extended part d.residue).Reflects (win ++ [⟨now, d, part⟩]) opener := by
  obtain ⟨parsed, limit, _⟩ := check_eq_ok checked
  exact reflects.extended ⟨now, d, part⟩ (Part.parse_inBounds parsed) limit admits

theorem Tracks.handle_refused (h : Tracks r s key win) (valid : d.sender.IsValid)
    (checked : r.check d = .ok (part, key))
    (refused : ¬ Window.Admits (win.live r.ttlMs now) part) :
    ∃ e, r.handle now s d = (.error e, r.prune now s) ∧ IsMisfit e part := by
  obtain ⟨b, opened, reflects, _⟩ := (h.prune now).bufferFor valid checked now
  obtain ⟨e, extended, misfit⟩ := extend_refused opened reflects refused
  exact ⟨e, handle_of_extend_error checked extended, misfit⟩

/-- A part that agrees and leaves the window incomplete is taken in, if the times can be written. -/
theorem Tracks.handle_pending (h : Tracks r s key win) (valid : d.sender.IsValid)
    (checked : r.check d = .ok (part, key)) (admits : Window.Admits (win.live r.ttlMs now) part)
    (unfinished : ¬ Window.IsComplete (win.live r.ttlMs now ++ [⟨now, d, part⟩]))
    (written : Integer.isWritable now = true)
    (created : ∀ call ∈ win, Integer.isWritable call.now = true) :
    ∃ t, r.handle now s d = (.ok .pending, t) := by
  obtain ⟨b, opened, reflects, _⟩ := (h.prune now).bufferFor valid checked now
  have after := reflects_extended checked reflects admits now
  have time : Integer.isWritable (b.extended part d.residue).createdMs = true := by
    rw [after.openedBy.createdMs]
    cases win with
    | nil => exact written
    | cons call win =>
      rw [Window.live]
      split
      · exact written
      · exact created call List.mem_cons_self
  obtain ⟨t, saved⟩ := save_ok r (r.prune now s) key after.sound time written
  have extended := extend_admitted opened reflects admits
    (after.sound.complete?_of_not_isComplete (mt after.gathers.isComplete_iff.mp unfinished))
  exact ⟨t, handle_of_save checked extended saved⟩

/-- At a time that cannot be written a part is refused, unless it completes a message. -/
theorem Tracks.handle_unwritable (h : Tracks r s key win) (valid : d.sender.IsValid)
    (checked : r.check d = .ok (part, key)) (admits : Window.Admits (win.live r.ttlMs now) part)
    (unfinished : ¬ Window.IsComplete (win.live r.ttlMs now ++ [⟨now, d, part⟩]))
    (unwritable : Integer.isWritable now = false) :
    ∃ e, r.handle now s d = (.error (.number e), r.prune now s) := by
  obtain ⟨b, opened, reflects, _⟩ := (h.prune now).bufferFor valid checked now
  have after := reflects_extended checked reflects admits now
  have extended := extend_admitted opened reflects admits
    (after.sound.complete?_of_not_isComplete (mt after.gathers.isComplete_iff.mp unfinished))
  obtain ⟨e, unsaved⟩ :=
    save_of_unwritable r (r.prune now s) key (b.extended part d.residue) unwritable
  exact ⟨e, handle_of_save_error checked extended unsaved⟩

/-- The part that completes the window gives the message, and the buffer is removed. -/
theorem Tracks.handle_complete (h : Tracks r s key win) (valid : d.sender.IsValid)
    (checked : r.check d = .ok (part, key)) (admits : Window.Admits (win.live r.ttlMs now) part)
    (complete : Window.IsComplete (win.live r.ttlMs now ++ [⟨now, d, part⟩])) :
    ∃ call p, Window.heading? (win.live r.ttlMs now ++ [⟨now, d, part⟩]) = some (call, p) ∧
      r.handle now s d = (.ok (.complete
        { sender := ((win.live r.ttlMs now).headD ⟨now, d, part⟩).delivery.sender
          payload := Window.payload (win.live r.ttlMs now ++ [⟨now, d, part⟩]) p.numParts
          messageType := p.messageType
          timestampNs := p.timestampNs
          messageId := ((win.live r.ttlMs now).headD ⟨now, d, part⟩).part.messageId
          fingerprint :=
            ((win.live r.ttlMs now).headD ⟨now, d, part⟩).delivery.fingerprint.getD [] }
        call.delivery.residue), r.delete (r.prune now s) key) := by
  obtain ⟨b, opened, reflects, _⟩ := (h.prune now).bufferFor valid checked now
  have after := reflects_extended checked reflects admits now
  obtain ⟨call, p, heading, residue, message⟩ := after.complete? complete
  have extended := extend_admitted opened reflects admits message
  refine ⟨call, p, heading, ?_⟩
  rw [handle_of_message checked extended]
  rw [residue]

/-- A part for the key leads to a slot that agrees with the window after it. -/
theorem Tracks.handle (h : Tracks r s key win) (valid : d.sender.IsValid)
    (checked : r.check d = .ok (part, key)) :
    Tracks r (r.handle now s d).2 key
      (r.after key win ⟨now, .deliver d, .handled (r.handle now s d).1⟩) := by
  rcases handle_cases now s checked with
    ⟨e, eq⟩ | ⟨b', t, extended, saved, eq⟩ | ⟨b', m, extended, eq⟩
  · rw [eq]
    simp only [after, checked, if_true]
    exact h.prune now
  · rw [eq]
    simp only [after, checked, if_true]
    obtain ⟨b, opened, reflects, times⟩ := (h.prune now).bufferFor valid checked now
    generalize win.live r.ttlMs now = left at opened reflects
    -- The buffer was saved, so the part was neither refused nor the one that completed it.
    have admits : left.Admits part := by
      refine Classical.byContradiction fun refused => ?_
      obtain ⟨e, failed, _⟩ := extend_refused opened reflects refused
      rw [failed] at extended
      cases extended
    have new := reflects_extended checked reflects admits now
    have unfinished : ¬ Window.IsComplete (left ++ [⟨now, d, part⟩]) := by
      intro complete
      obtain ⟨_, _, _, _, message⟩ := new.complete? complete
      rw [extend_admitted opened reflects admits message] at extended
      cases extended
    rw [extend_admitted opened reflects admits (new.sound.complete?_of_not_isComplete
      (mt new.gathers.isComplete_iff.mp unfinished))] at extended
    cases extended
    -- What is read next time has its parts in another order, which the window does not show.
    have keeps := keeps_save saved new.sound.isStorable
      fun created opened => (times created opened).trans (by cases part <;> rfl)
    cases left with
    | nil => exact .buffer _ _ _ keeps new.sorted unfinished
    | cons opener left => exact .buffer _ _ _ keeps new.sorted unfinished
  · rw [eq]
    simp only [after, checked, if_true]
    exact .nothing (lacks_delete ..)

end Delivery

/-! ## Runs -/

/-- From a slot that agrees a run leads to a slot that agrees. Only what is delivered for the key
must come from valid senders. -/
theorem Tracks.run {w : World} (h : Tracks r w.state key win) {ops : List Operation}
    (valid : ∀ d part, .deliver d ∈ ops → r.check d = .ok (part, key) → d.sender.IsValid) :
    Tracks r (r.run w ops).state key ((r.history w ops).foldl (r.after key) win) :=
  IsKept.run (R := fun s win => Tracks r s key win)
    ⟨Tracks.congr, Tracks.prune, Tracks.handle⟩ h valid

/-- From a state without a slot for the key, the slot follows the window of the run. -/
theorem tracks_window {w : World} (lacks : Lacks r w.state key) {ops : List Operation}
    (valid : ∀ d part, .deliver d ∈ ops → r.check d = .ok (part, key) → d.sender.IsValid) :
    Tracks r (r.run w ops).state key (r.window key (r.history w ops)) :=
  Tracks.run (.nothing lacks) valid

end Reassembler

end PartRelay.Reassembly
