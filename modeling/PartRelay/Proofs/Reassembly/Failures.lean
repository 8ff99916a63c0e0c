import PartRelay.Proofs.Reassembly.Runs
import PartRelay.Proofs.Reassembly.Slots

/-!
# Parts that are refused

A refused part never half changes anything. What the checks refuse leaves the state as it is; what
is refused later has pruned the state and done no more, so that a call to prune could stand in its
place.
-/

namespace PartRelay.Reassembly.Reassembler

variable {r : Reassembler} {now : Int} {s s' : State} {d : Delivery} {e : Refusal}

theorem state_of_refused (h : r.handle now s d = (.error e, s')) :
    (r.check d = .error e ∧ s' = s) ∨
      ((∃ part key, r.check d = .ok (part, key)) ∧ s' = r.prune now s) := by
  cases checked : r.check d with
  | error cause =>
    rw [handle_of_check_error checked, Prod.mk.injEq] at h
    obtain ⟨same, rfl⟩ := h
    cases same
    exact .inl ⟨rfl, rfl⟩
  | ok result =>
    obtain ⟨part, key⟩ := result
    refine .inr ⟨⟨part, key, rfl⟩, ?_⟩
    rcases handle_cases now s checked with
      ⟨cause, eq⟩ | ⟨b, t, _, _, eq⟩ | ⟨b, m, _, eq⟩
    · rw [eq, Prod.mk.injEq] at h
      exact h.2.symm
    · rw [eq] at h
      cases h
    · rw [eq] at h
      cases h

/-- Outside the stale keys a refused part leaves store and index byte for byte as they are. -/
theorem slot_of_refused (h : r.handle now s d = (.error e, s')) {key : Text}
    (fresh : key ∉ r.stale now s) :
    Table.get? s'.store (r.place key) = Table.get? s.store (r.place key) ∧
      Table.get? s'.active key = Table.get? s.active key := by
  rcases state_of_refused h with ⟨_, rfl⟩ | ⟨_, rfl⟩
  · exact ⟨rfl, rfl⟩
  · exact ⟨(sameSlot_prune fresh).entry.symm, get?_active_prune fresh⟩

/-- Two lists of operations after which nothing is answered otherwise. -/
def Interchangeable (r : Reassembler) (w : World) (ops instead : List Operation) : Prop :=
  ∀ later, r.run (r.run w ops) later = r.run (r.run w instead) later ∧
    r.history (r.run w ops) later = r.history (r.run w instead) later

theorem Interchangeable.of_run_eq {w : World} {ops instead : List Operation}
    (h : r.run w ops = r.run w instead) : r.Interchangeable w ops instead := by
  intro later
  rw [h]
  exact ⟨rfl, rfl⟩

/-- A refused part can be replaced: by nothing if the checks refused it, else by pruning. What has
not expired stands as it stood. -/
theorem refused_part_replaceable (h : r.handle now s d = (.error e, s')) :
    ((r.check d = .error e ∧ s' = s ∧ r.Interchangeable ⟨now, s⟩ [.deliver d] []) ∨
      ((∃ part key, r.check d = .ok (part, key)) ∧ s' = r.prune now s ∧
        r.Interchangeable ⟨now, s⟩ [.deliver d] [.prune])) ∧
    ∀ key, (∀ created, (key, created) ∈ s.active → now - r.ttlMs < created) →
      Table.get? s'.store (r.place key) = Table.get? s.store (r.place key) ∧
        Table.get? s'.active key = Table.get? s.active key := by
  have delivered : r.run ⟨now, s⟩ [.deliver d] = ⟨now, s'⟩ := by
    show World.mk now (r.handle now s d).2 = _
    rw [h]
  constructor
  · rcases state_of_refused h with ⟨refused, same⟩ | ⟨checked, pruned⟩
    · exact .inl ⟨refused, same, .of_run_eq (delivered.trans (by rw [same]; rfl))⟩
    · exact .inr ⟨checked, pruned, .of_run_eq (delivered.trans (by rw [pruned]; rfl))⟩
  · intro key young
    refine slot_of_refused h fun old => ?_
    obtain ⟨created, opened, expired⟩ := mem_stale_iff.mp old
    have later := young created opened
    omega

/-! ### Bytes that are no record -/

theorem handle_of_load_error {part : Part} {key : Text} (checked : r.check d = .ok (part, key))
    (unread : r.load (r.prune now s) key = .error e) :
    r.handle now s d = (.error e, r.prune now s) := by
  refine handle_of_extend_error checked ?_
  simp only [extend, bufferFor, unread]

/-- An entry of more brackets than may stand in one another makes a part fail like any other fault
of an entry does. -/
theorem handle_of_brackets {part : Part} {key : Text} (checked : r.check d = .ok (part, key))
    (fresh : key ∉ r.stale now s)
    (entry : Table.get? s.store (r.view.rawKey key bufferVersion) = some
      (Utf8.write (List.replicate (r.view.levels.most + 1) (CodePoint.ofChar '[')))) :
    r.handle now s d
      = (.error (.store (.record (.json (.tooDeep .array)))), r.prune now s) := by
  have ascii : Text.IsAscii (List.replicate (r.view.levels.most + 1) (CodePoint.ofChar '[')) := by
    intro c hc
    rw [List.eq_of_mem_replicate hc]
    decide
  have read := Json.readWithin_brackets r.view.levels.most []
  rw [List.append_nil] at read
  refine handle_of_load_error checked ?_
  rw [← (sameSlot_prune fresh).load, load, View.get, entry]
  simp only [Record.decode, Utf8.read_write_of_isAscii ascii, read]

/-- A lone brace in the place of the buffer. -/
def spoiled : State where
  store := [(narrow.place stragglerKey, [0x7B])]
  active := [(stragglerKey, 4500)]

theorem load_spoiled : ∃ e, narrow.load spoiled stragglerKey = .error e := by
  have entry : Table.get? spoiled.store (narrow.view.rawKey stragglerKey bufferVersion)
      = some [0x7B] := if_pos rfl
  rw [load, View.get, entry]
  exact ⟨_, rfl⟩

theorem refused_part_replaceable_spoiled :
    ∃ e, narrow.handle 5000 spoiled straggler = (.error e, narrow.prune 5000 spoiled) ∧
      ((narrow.check straggler = .error e ∧ narrow.prune 5000 spoiled = spoiled ∧
          narrow.Interchangeable ⟨5000, spoiled⟩ [.deliver straggler] []) ∨
        ((∃ part key, narrow.check straggler = .ok (part, key)) ∧
          narrow.prune 5000 spoiled = narrow.prune 5000 spoiled ∧
          narrow.Interchangeable ⟨5000, spoiled⟩ [.deliver straggler] [.prune])) ∧
      ∀ key, (∀ created, (key, created) ∈ spoiled.active → 5000 - narrow.ttlMs < created) →
        Table.get? (narrow.prune 5000 spoiled).store (narrow.place key)
            = Table.get? spoiled.store (narrow.place key) ∧
          Table.get? (narrow.prune 5000 spoiled).active key = Table.get? spoiled.active key := by
  have young : stragglerKey ∉ narrow.stale 5000 spoiled := by
    rw [mem_stale_iff]
    rintro ⟨created, opened, expired⟩
    cases List.mem_singleton.mp opened
    exact absurd expired (by decide)
  obtain ⟨e, unread⟩ := load_spoiled
  rw [(sameSlot_prune young).load] at unread
  have refused := handle_of_load_error check_straggler unread
  exact ⟨e, refused, refused_part_replaceable refused⟩

end PartRelay.Reassembly.Reassembler
