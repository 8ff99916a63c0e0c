import PartRelay.Proofs.Reassembly.Restarts

/-!
# Expiry across restarts

A new reassembler knows of none of the buffers that are in the store. It comes to know of one when
it takes a part into it, and from then on the buffer expires by the date that the store has for it.
A buffer that no part has come into since the latest restart is dormant: it stays, whatever its age.
-/

namespace PartRelay.Reassembly

namespace Reassembler

/-! ## Lives and what was known in them -/

/-- The world that lives lead to, each of which ends with a restart. -/
def outlive (r : Reassembler) (w : World) : List (List Operation) → World
  | [] => w
  | ops :: lives => outlive r (r.run w ops).restart lives

/-- What happens on the way. -/
def past (r : Reassembler) (w : World) : List (List Operation) → List Event
  | [] => []
  | ops :: lives => r.history w ops ++ past r (r.run w ops).restart lives

/-- Whether a part was taken in under a key. -/
def TookIn (r : Reassembler) (events : List Event) (key : Text) : Prop :=
  ∃ event ∈ events, ∃ call, event.TakesIn r key call

/-- Whether a part that was taken in under a key came at this time. -/
def TookInAt (r : Reassembler) (events : List Event) (key : Text) (created : Int) : Prop :=
  ∃ event ∈ events, ∃ call, event.TakesIn r key call ∧ call.now = created

variable {r : Reassembler} {now : Int} {s t : State} {key : Text} {d : Delivery} {part : Part}
  {b : Buffer} {w : World} {earlier events : List Event} {event : Event}

theorem tookIn_append : r.TookIn (events ++ [event]) key
    ↔ r.TookIn events key ∨ ∃ call, event.TakesIn r key call := by
  simp [TookIn, or_and_right, exists_or]

theorem TookInAt.append {created : Int} (h : r.TookInAt events key created) (later : List Event) :
    r.TookInAt (events ++ later) key created := by
  obtain ⟨event, happened, taken⟩ := h
  exact ⟨event, List.mem_append_left _ happened, taken⟩

/-! ## Slots across restarts -/

/-- The slot of a key is empty, or it holds a buffer that is dated by a part, and which is in the
index with that date once a part has come into it since the latest restart. -/
inductive Shelved (r : Reassembler) (s : State) (key : Text) (earlier events : List Event) :
    Prop where
  | nothing (lacks : Lacks r s key)
  | buffer (b : Buffer) (loaded : r.load s key = .ok (some b))
      (listed : ∀ created, (key, created) ∈ s.active ↔ created = b.createdMs ∧ r.TookIn events key)
      (dated : r.TookInAt (earlier ++ events) key b.createdMs)

theorem Shelved.congr (h : Shelved r s key earlier events) (same : SameSlot r key s t) :
    Shelved r t key earlier events := by
  cases h with
  | nothing lacks => exact .nothing (lacks.congr same)
  | buffer b loaded listed dated =>
    exact .buffer b (same.load ▸ loaded)
      (fun created => (same.opened created).symm.trans (listed created)) dated

/-- An event that takes nothing in under the key leaves what is known of it. -/
theorem Shelved.append (h : Shelved r s key earlier events)
    (other : ∀ call, ¬ event.TakesIn r key call) :
    Shelved r s key earlier (events ++ [event]) := by
  cases h with
  | nothing lacks => exact .nothing lacks
  | buffer b loaded listed dated =>
    refine .buffer b loaded (fun created => ?_) (List.append_assoc .. ▸ dated.append [event])
    rw [listed, tookIn_append, or_iff_left fun ⟨call, taken⟩ => other call taken]

theorem Shelved.prune (h : Shelved r s key earlier events) (now : Int) :
    Shelved r (r.prune now s) key earlier events := by
  by_cases stale : key ∈ r.stale now s
  · exact .nothing (lacks_prune stale)
  · exact h.congr (sameSlot_prune stale)

theorem Shelved.restart (h : Shelved r s key earlier events) :
    Shelved r (restart s) key (earlier ++ events) [] := by
  cases h with
  | nothing lacks => exact .nothing ⟨lacks.entry, fun _ none => absurd none List.not_mem_nil⟩
  | buffer b loaded _ dated =>
    refine .buffer b loaded (fun created => ?_) (dated.append [])
    have unknown : ¬ r.TookIn [] key := fun ⟨_, never, _⟩ => absurd never List.not_mem_nil
    exact iff_of_false List.not_mem_nil fun known => unknown known.2

/-- A part goes into the buffer of the slot, or opens one of its own time. -/
theorem Shelved.bufferFor (h : Shelved r s key earlier events)
    (found : r.bufferFor now s d part key = .ok b) :
    (∀ created, (key, created) ∈ s.active ↔ created = b.createdMs ∧
      r.load s key = .ok (some b) ∧ r.TookIn events key) ∧
    (b.createdMs = now ∨ r.TookInAt (earlier ++ events) key b.createdMs) := by
  rcases bufferFor_eq_ok found with loaded | ⟨lacking, rfl⟩
  · cases h with
    | nothing lacks =>
      rw [lacks.load] at loaded
      cases loaded
    | buffer b' loaded' listed dated =>
      rw [loaded'] at loaded
      cases loaded
      exact ⟨fun created => by simp [listed, loaded'], .inr dated⟩
  · cases h with
    | nothing lacks => exact ⟨fun created => by simp [lacks.opened, lacking], .inl rfl⟩
    | buffer b' loaded' _ _ =>
      rw [loaded'] at lacking
      cases lacking

/-- What a part leaves is known, with the date that it had or the time of the part. -/
theorem Shelved.save {call : Call} (h : Shelved r s key earlier events)
    (valid : d.sender.IsValid) (checked : r.check d = .ok (part, key))
    (extended : r.extend now s d part key = .ok (b, none)) (saved : r.save now s key b = .ok t)
    (taken : event.TakesIn r key call) (time : call.now = now) :
    Shelved r t key earlier (events ++ [event]) := by
  obtain ⟨opened, found, rfl, _⟩ := extend_eq_ok extended
  obtain ⟨listed, date⟩ := h.bufferFor found
  have same := Buffer.createdMs_extended opened part d.residue
  have keeps := keeps_save saved (isStorable_of_extend valid checked extended)
    fun created there => ((listed created).mp there).1.trans same.symm
  have known : r.TookIn (events ++ [event]) key := tookIn_append.mpr (.inr ⟨call, taken⟩)
  refine .buffer _ keeps.loaded (fun created => ?_) ?_
  · rw [keeps.opened, and_iff_left known]
  · show r.TookInAt _ key (opened.extended part d.residue).createdMs
    rw [same, ← List.append_assoc]
    rcases date with new | old
    · exact ⟨event, List.mem_append_right _ List.mem_cons_self, call, taken, time.trans new.symm⟩
    · exact old.append [event]

theorem Shelved.handle (h : Shelved r s key earlier events) (valid : d.sender.IsValid) :
    Shelved r (r.handle now s d).2 key earlier
      (events ++ [⟨now, .deliver d, .handled (r.handle now s d).1⟩]) := by
  cases checked : r.check d with
  | error e =>
    rw [handle_of_check_error checked]
    refine h.append fun call taken => ?_
    cases taken.operation
    rw [taken.checked] at checked
    cases checked
  | ok result =>
    obtain ⟨part, other⟩ := result
    have pruned := h.prune now
    by_cases same : other = key
    · subst same
      rcases handle_cases now s checked with ⟨e, eq⟩ | ⟨b, t, extended, saved, eq⟩ | ⟨b, m, _, eq⟩
      · rw [eq]
        exact pruned.append fun call taken => nomatch taken.answer
      · rw [eq]
        have taken : Event.TakesIn ⟨now, .deliver d, .handled (.ok .pending)⟩ r other
          ⟨now, d, part⟩ := ⟨rfl, rfl, checked, rfl⟩
        exact pruned.save valid checked extended saved taken rfl
      · rw [eq]
        exact .nothing (lacks_delete ..)
    · refine (pruned.congr (sameSlot_handle checked same)).append fun call taken => ?_
      cases taken.operation
      rw [taken.checked] at checked
      cases checked
      exact same rfl

theorem Shelved.step {op : Operation} (h : Shelved r w.state key earlier events)
    (valid : op.HasValidSender) : Shelved r (r.step w op).2.state key earlier
      (events ++ [⟨w.now, op, (r.step w op).1⟩]) := by
  cases op with
  | deliver d => exact h.handle valid
  | prune => exact (h.prune w.now).append fun call taken => nomatch taken.operation
  | advance ms => exact h.append fun call taken => nomatch taken.operation

/-! ## Stores across restarts -/

/-- Every slot is as it should be, and the store has no entry that is not in a slot. -/
structure Shelves (r : Reassembler) (s : State) (earlier events : List Event) : Prop where
  slots : ∀ key, Shelved r s key earlier events
  others : ∀ raw, (∀ key, raw ≠ r.place key) → Table.get? s.store raw = none

theorem Shelves.step {op : Operation} (h : Shelves r w.state earlier events)
    (valid : op.HasValidSender) : Shelves r (r.step w op).2.state earlier
      (events ++ [⟨w.now, op, (r.step w op).1⟩]) where
  slots := fun key => (h.slots key).step valid
  others := by
    intro raw apart
    rw [← h.others raw apart]
    cases op with
    | deliver d => exact get?_store_handle fun key _ => apart key
    | prune => exact get?_store_prune fun key _ => apart key
    | advance ms => rfl

theorem Shelves.run {ops : List Operation} (h : Shelves r w.state earlier events)
    (valid : ∀ op ∈ ops, op.HasValidSender) :
    Shelves r (r.run w ops).state earlier (events ++ r.history w ops) := by
  induction ops generalizing w events with
  | nil => exact (List.append_nil events).symm ▸ h
  | cons op ops ih =>
    have first := h.step (valid op List.mem_cons_self)
    have rest := ih first fun o ho => valid o (List.mem_cons_of_mem _ ho)
    rwa [List.append_assoc] at rest

theorem Shelves.restart (h : Shelves r s earlier events) :
    Shelves r (restart s) (earlier ++ events) [] :=
  ⟨fun key => (h.slots key).restart, h.others⟩

theorem Shelves.outlive {lives : List (List Operation)} (h : Shelves r w.state earlier [])
    (valid : ∀ op ∈ lives.flatten, op.HasValidSender) :
    Shelves r (r.outlive w lives).state (earlier ++ r.past w lives) [] := by
  induction lives generalizing w earlier with
  | nil => exact (List.append_nil earlier).symm ▸ h
  | cons ops lives ih =>
    rw [List.flatten_cons, List.forall_mem_append] at valid
    have first := (h.run valid.1).restart
    have rest := ih (w := (r.run w ops).restart) first valid.2
    rwa [List.nil_append, List.append_assoc] at rest

/-- A store without slots, as every reassembler finds it at first. -/
theorem shelves_empty (r : Reassembler) : Shelves r {} [] [] where
  slots := fun key => .nothing (lacks_empty r key)
  others := fun _ _ => rfl

/-! ## Pruning and messages -/

/-- A new reassembler has nothing to prune. -/
theorem prune_restart (r : Reassembler) (now : Int) (s : State) :
    r.prune now (restart s) = restart s :=
  prune_of_stale_eq_nil rfl

/-- What pruning leaves in the index is young. -/
theorem young_of_active_prune {created : Int} (h : (key, created) ∈ (r.prune now s).active) :
    now - r.ttlMs < created := by
  obtain ⟨before, young⟩ := mem_active_prune.mp h
  exact Int.not_le.mp fun old => young (mem_stale_iff.mpr ⟨created, before, old⟩)

theorem Shelved.gone_iff (h : Shelved r s key earlier events)
    (loaded : r.load s key = .ok (some b)) :
    Table.get? (r.prune now s).store (r.place key) = none
      ↔ b.createdMs ≤ now - r.ttlMs ∧ r.TookIn events key := by
  cases h with
  | nothing lacks =>
    rw [lacks.load] at loaded
    cases loaded
  | buffer b' loaded' listed _ =>
    rw [loaded'] at loaded
    cases loaded
    have stale : key ∈ r.stale now s ↔ b.createdMs ≤ now - r.ttlMs ∧ r.TookIn events key := by
      simp only [mem_stale_iff, listed, and_assoc, exists_eq_left]
      exact and_comm
    rw [← stale]
    refine ⟨fun gone => Decidable.byContradiction fun young => ?_,
      fun old => (lacks_prune old).entry⟩
    -- What is read under a key has an entry, and pruning leaves that of a young key.
    obtain ⟨record, read, _⟩ := load_eq_some loaded'
    rw [← (sameSlot_prune young).entry] at gone
    exact Table.get?_eq_none_iff.mp gone (place_mem_of_get read)

theorem Shelves.entry {raw : Text} (h : Shelves r s earlier events)
    (stored : raw ∈ Table.keys s.store) :
    ∃ key b, raw = r.place key ∧ r.load s key = .ok (some b) := by
  have placed : ∃ key, raw = r.place key := by
    refine Classical.byContradiction fun apart => ?_
    have absent := h.others raw fun key eq => apart ⟨key, eq⟩
    exact Table.get?_eq_none_iff.mp absent stored
  obtain ⟨key, rfl⟩ := placed
  cases h.slots key with
  | nothing lacks => exact absurd stored (Table.get?_eq_none_iff.mp lacks.entry)
  | buffer b loaded _ _ => exact ⟨key, b, rfl, loaded⟩

/-- What a world says about the age of its buffers after `events` since the latest restart and those
that were `earlier`. -/
structure ExpiresOnceKnown (r : Reassembler) (w : World) (earlier events : List Event) : Prop where
  /-- Every entry of the store is a buffer. -/
  entries : ∀ raw ∈ Table.keys w.state.store,
    ∃ key b, raw = r.place key ∧ r.load w.state key = .ok (some b)
  /-- A buffer has the date of a part that was taken into it. -/
  dated : ∀ key b, r.load w.state key = .ok (some b) →
    r.TookInAt (earlier ++ events) key b.createdMs
  /-- Pruning removes the old buffers into which a part has come since the restart. -/
  removed : ∀ key b, r.load w.state key = .ok (some b) →
    (Table.get? (r.prune w.now w.state).store (r.place key) = none
      ↔ b.createdMs ≤ w.now - r.ttlMs ∧ r.TookIn events key)
  /-- It changes nothing in an entry that it leaves, which is no such buffer. -/
  left : ∀ raw ∈ Table.keys (r.prune w.now w.state).store,
    Table.get? (r.prune w.now w.state).store raw = Table.get? w.state.store raw ∧
    ∃ key b, raw = r.place key ∧ r.load (r.prune w.now w.state) key = .ok (some b) ∧
      (b.createdMs ≤ w.now - r.ttlMs → ¬ r.TookIn events key)
  /-- A part that is taken in leaves the date as it is, and dates a buffer that it opens. -/
  accepted : ∀ d part key, d.sender.IsValid → r.check d = .ok (part, key) →
    (r.handle w.now w.state d).1 = .ok .pending →
    ∃ b, r.load (r.handle w.now w.state d).2 key = .ok (some b) ∧
      (∀ old, r.load (r.prune w.now w.state) key = .ok (some old) → b.createdMs = old.createdMs) ∧
      (r.load (r.prune w.now w.state) key = .ok none → b.createdMs = w.now)
  /-- A message comes of a buffer that is young, if a part has come into it since the restart. -/
  completed : ∀ d part key m residue, r.check d = .ok (part, key) →
    (r.handle w.now w.state d).1 = .ok (.complete m residue) →
    ∃ b n, r.bufferFor w.now (r.prune w.now w.state) d part key = .ok b ∧
      m = (b.extended part d.residue).message n ∧
      (r.TookIn events key → w.now - r.ttlMs < b.createdMs)

theorem Shelves.prune (h : Shelves r s earlier events) (now : Int) :
    Shelves r (r.prune now s) earlier events where
  slots := fun key => (h.slots key).prune now
  others := fun raw apart => (get?_store_prune fun key _ => apart key).trans (h.others raw apart)

theorem Shelves.left {raw : Text} (h : Shelves r s earlier events)
    (stored : raw ∈ Table.keys (r.prune now s).store) :
    Table.get? (r.prune now s).store raw = Table.get? s.store raw ∧
    ∃ key b, raw = r.place key ∧ r.load (r.prune now s) key = .ok (some b) ∧
      (b.createdMs ≤ now - r.ttlMs → ¬ r.TookIn events key) := by
  obtain ⟨key, b, rfl, loaded⟩ := (h.prune now).entry stored
  have young : key ∉ r.stale now s := fun stale =>
    Table.get?_eq_none_iff.mp (lacks_prune stale).entry stored
  have same := sameSlot_prune young
  refine ⟨same.entry.symm, key, b, rfl, loaded, fun old known => ?_⟩
  have gone := ((h.slots key).gone_iff (same.load.trans loaded)).mpr ⟨old, known⟩
  exact Table.get?_eq_none_iff.mp gone stored

theorem date_of_pending (valid : d.sender.IsValid) (checked : r.check d = .ok (part, key))
    (pending : (r.handle now s d).1 = .ok .pending) :
    ∃ b, r.load (r.handle now s d).2 key = .ok (some b) ∧
      (∀ old, r.load (r.prune now s) key = .ok (some old) → b.createdMs = old.createdMs) ∧
      (r.load (r.prune now s) key = .ok none → b.createdMs = now) := by
  obtain ⟨b, t, extended, saved, eq⟩ := extend_of_pending checked pending
  rw [eq]
  have loaded := load_save saved (isStorable_of_extend valid checked extended)
  obtain ⟨opened, found, rfl, _⟩ := extend_eq_ok extended
  refine ⟨_, loaded, ?_⟩
  show (∀ old, _ → (opened.extended part d.residue).createdMs = _) ∧
    (_ → (opened.extended part d.residue).createdMs = _)
  rw [Buffer.createdMs_extended]
  rcases bufferFor_eq_ok found with before | ⟨before, rfl⟩
  · rw [before]
    refine ⟨fun old same => ?_, nofun⟩
    cases same
    rfl
  · rw [before]
    exact ⟨nofun, fun _ => rfl⟩

theorem Shelves.young_of_complete {m : Message} {residue : Option Bytes}
    (h : Shelves r s earlier events) (positive : 0 < r.ttlMs)
    (checked : r.check d = .ok (part, key))
    (completed : (r.handle now s d).1 = .ok (.complete m residue)) :
    ∃ b n, r.bufferFor now (r.prune now s) d part key = .ok b ∧
      m = (b.extended part d.residue).message n ∧
      (r.TookIn events key → now - r.ttlMs < b.createdMs) := by
  obtain ⟨b, extended⟩ := extend_of_complete checked completed
  obtain ⟨opened, found, rfl, completion⟩ := extend_eq_ok extended
  obtain ⟨n, message, _⟩ := Buffer.complete?_eq_some completion
  refine ⟨opened, n, found, message, fun known => ?_⟩
  obtain ⟨listed, _⟩ := ((h.prune now).slots key).bufferFor found
  rcases bufferFor_eq_ok found with loaded | ⟨_, rfl⟩
  · exact young_of_active_prune ((listed _).mpr ⟨rfl, loaded, known⟩)
  · show now - r.ttlMs < now
    omega

theorem Shelves.expiresOnceKnown (h : Shelves r w.state earlier events) (positive : 0 < r.ttlMs) :
    ExpiresOnceKnown r w earlier events where
  entries := fun raw => h.entry
  dated := by
    intro key b loaded
    cases h.slots key with
    | nothing lacks =>
      rw [lacks.load] at loaded
      cases loaded
    | buffer b' loaded' _ dated =>
      rw [loaded'] at loaded
      cases loaded
      exact dated
  removed := fun key b => (h.slots key).gone_iff
  left := fun raw => h.left
  accepted := fun d part key => date_of_pending
  completed := fun d part key m residue => h.young_of_complete positive

/-- In a run from the empty store with restarts at any points, buffers expire once they are known
again. -/
theorem expiresOnceKnown_lives {root : View} {maxFragmentSize ttlMs : Int}
    (made : create root maxFragmentSize ttlMs = .ok r) (start : Int) {lives : List (List Operation)}
    {ops : List Operation} (valid : ∀ op ∈ lives.flatten ++ ops, op.HasValidSender) :
    ExpiresOnceKnown r (r.run (r.outlive ⟨start, {}⟩ lives) ops) (r.past ⟨start, {}⟩ lives)
      (r.history (r.outlive ⟨start, {}⟩ lives) ops) := by
  obtain ⟨_, _, _, ttl, positive⟩ := create_eq_ok made
  rw [List.forall_mem_append] at valid
  have begun : Shelves r (r.outlive ⟨start, {}⟩ lives).state (r.past ⟨start, {}⟩ lives) [] :=
    (shelves_empty r).outlive (w := ⟨start, {}⟩) valid.1
  exact (begun.run valid.2).expiresOnceKnown (ttl ▸ positive)

/-! ### A straggler before a restart -/

def beforeRestart : List (List Operation) := [[.deliver straggler]]

theorem expiresOnceKnown_straggler :
    (∀ op ∈ beforeRestart.flatten ++ [.deliver straggler, .advance 1000], op.HasValidSender) ∧
      ExpiresOnceKnown narrow
        (narrow.run (narrow.outlive ⟨0, {}⟩ beforeRestart) [.deliver straggler, .advance 1000])
        (narrow.past ⟨0, {}⟩ beforeRestart)
        (narrow.history (narrow.outlive ⟨0, {}⟩ beforeRestart)
          [.deliver straggler, .advance 1000]) := by
  have made : create View.shallow 64 1000 = .ok narrow := rfl
  have valid : ∀ op ∈ beforeRestart.flatten ++ [.deliver straggler, .advance 1000],
      op.HasValidSender := by
    intro op ho
    have among : op ∈ [.deliver straggler, .deliver straggler, .advance 1000] := ho
    simp only [List.mem_cons, List.not_mem_nil, or_false] at among
    rcases among with rfl | rfl | rfl
    · exact rfl
    · exact rfl
    · trivial
  exact ⟨valid, expiresOnceKnown_lives made 0 valid⟩

/-- Without a part after the restart the buffer is dormant: pruning leaves it at its full age. -/
theorem dormant_straggler :
    (∀ op ∈ beforeRestart.flatten ++ [.advance 1000], op.HasValidSender) ∧
      (narrow.run (narrow.outlive ⟨0, {}⟩ beforeRestart) [.advance 1000]).now = 1000 ∧
      ∃ b, narrow.load (narrow.prune 1000
          (narrow.run (narrow.outlive ⟨0, {}⟩ beforeRestart) [.advance 1000]).state) stragglerKey
        = .ok (some b) ∧ b.createdMs ≤ 1000 - narrow.ttlMs := by
  refine ⟨fun op ho => ?_, rfl, ?_⟩
  · have among : op ∈ [.deliver straggler, .advance 1000] := ho
    rw [List.mem_cons, List.mem_singleton] at among
    rcases among with rfl | rfl
    · exact rfl
    · trivial
  · have valid : straggler.sender.IsValid := rfl
    obtain ⟨t, answer⟩ := handle_straggler
    have pending : (narrow.handle 0 {} straggler).1 = .ok .pending := congrArg Prod.fst answer
    obtain ⟨b, loaded, _, opened⟩ := date_of_pending valid check_straggler pending
    have empty := lacks_empty narrow stragglerKey
    have pruned : Lacks narrow (narrow.prune 0 {}) stragglerKey :=
      empty.congr (sameSlot_prune empty.not_stale)
    have date : b.createdMs = 0 := opened pruned.load
    refine ⟨b, ?_, ?_⟩
    · simp only [beforeRestart, outlive, run, step, World.restart, prune_restart]
      rw [answer] at loaded ⊢
      exact loaded
    · rw [date]
      decide

end Reassembler

end PartRelay.Reassembly
