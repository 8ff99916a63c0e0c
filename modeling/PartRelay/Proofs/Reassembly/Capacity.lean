import Mathlib.Data.List.Perm.Subperm
import PartRelay.Proofs.Part.Partition
import PartRelay.Proofs.Reassembly.Restarts

/-!
# What buffers hold

A part holds no more than one of the greatest size does, whatever it was sent as. So no buffer of a
store holds more than a message of that size can, and no message does: not after any run, nor after
any number of reassemblers that took the place of one another.
-/

namespace PartRelay

namespace Part

/-- How much the part with an index holds. -/
def quota (size index : Int) : Nat :=
  if index = 0 then (firstCapacity size).toNat else (capacity size).toNat

/-- The indices of the parts of a message. -/
def indices : List Int := (List.range maxParts).map Int.ofNat

theorem mem_indices {index : Int} : index ∈ indices ↔ 0 ≤ index ∧ index < maxParts := by
  rw [indices, List.mem_map]
  constructor
  · rintro ⟨i, hi, rfl⟩
    exact ⟨Int.natCast_nonneg i, Int.ofNat_lt.mpr (List.mem_range.mp hi)⟩
  · rintro ⟨nonneg, small⟩
    exact ⟨index.toNat, List.mem_range.mpr (by omega), Int.toNat_of_nonneg nonneg⟩

/-- A message holds what its parts do. -/
theorem sum_quota {size : Int} (room : 0 < firstCapacity size) :
    ((indices.map (quota size)).sum : Int) = maxPayload size := by
  have positive := capacity_pos room
  have later : ((List.range 254).map fun i => quota size (Int.ofNat (i + 1)))
      = List.replicate 254 (capacity size).toNat := by
    rw [List.eq_replicate_iff]
    refine ⟨by simp, fun n hn => ?_⟩
    obtain ⟨i, _, rfl⟩ := List.mem_map.mp hn
    exact if_neg (by simp; omega)
  have split : indices.map (quota size)
      = (firstCapacity size).toNat :: List.replicate 254 (capacity size).toNat := by
    rw [indices, maxParts, List.range_succ_eq_map, List.map_map, List.map_cons, List.map_map,
      ← later]
    rfl
  rw [split, List.sum_cons, List.sum_replicate, Nat.nsmul_eq_mul, maxPayload, maxParts]
  omega

/-- Parts with different indices hold no more between them than a message does. -/
theorem sum_quota_le {size : Int} (room : 0 < firstCapacity size) {keys : List Int}
    (distinct : keys.Nodup) (among : ∀ index ∈ keys, 0 ≤ index ∧ index < maxParts) :
    ((keys.map (quota size)).sum : Int) ≤ maxPayload size := by
  have inside : keys.Subperm indices :=
    List.subperm_of_subset distinct fun index hi => mem_indices.mpr (among index hi)
  obtain ⟨same, perm, sub⟩ := inside
  rw [← sum_quota room, ← (perm.map (quota size)).sum_eq]
  exact Int.ofNat_le.mpr ((sub.map (quota size)).sum_le_sum fun _ _ => Nat.zero_le _)

/-- Nothing is read out of bytes but what there is room for. -/
theorem length_contents_le {raw : Bytes} {part : Part} {size : Int} (h : parse raw = .ok part)
    (length : raw.length ≤ size) : part.contents.length ≤ quota size part.index := by
  obtain ⟨bounds, _, rest, more, rfl⟩ := parse_eq_ok_iff.mp h
  have behind : 0 < rest.length := List.length_pos_iff.mpr more
  rw [List.length_append, length_written] at length
  cases part with
  | first p =>
    rw [quota, index, if_pos rfl, firstCapacity, firstHeaderLength, headerLength]
    rw [offset] at length
    omega
  | continuation p =>
    have later : 1 ≤ p.index := bounds.continuation p rfl
    rw [quota, index, if_neg (by omega), capacity, headerLength]
    rw [offset] at length
    omega

end Part

namespace Reassembly

/-! ## Buffers within bounds -/

namespace Buffer

/-- A buffer that holds each part once, and of each no more than there is room for in a part of its
index. -/
structure IsWithin (b : Buffer) (size : Int) : Prop where
  distinct : b.parts.keys.Nodup
  indices : ∀ index ∈ b.parts.keys, 0 ≤ index ∧ index < Part.maxParts
  lengths : ∀ index contents, (index, contents) ∈ b.parts →
    contents.length ≤ Part.quota size index

/-- How many bytes a buffer holds. -/
def held (b : Buffer) : Nat := (b.parts.map (·.2.length)).sum

section Within

variable {b : Buffer} {size : Int}

theorem isWithin_of_no_parts (none : b.parts = []) : b.IsWithin size where
  distinct := by rw [none]; exact .nil
  indices := by
    rw [none]
    exact fun _ never => absurd never List.not_mem_nil
  lengths := by
    rw [none]
    exact fun _ _ never => absurd never List.not_mem_nil

theorem IsWithin.extended {part : Part} (h : b.IsWithin size)
    (nonneg : 0 ≤ part.index) (limit : part.index < Part.maxParts)
    (length : part.contents.length ≤ Part.quota size part.index) (residue : Option Bytes) :
    (b.extended part residue).IsWithin size where
  distinct := nodup_keys_extended h.distinct part residue
  indices := by
    intro index hi
    rcases mem_keys_extended.mp hi with old | rfl
    · exact h.indices index old
    · exact ⟨nonneg, limit⟩
  lengths := by
    intro index contents hp
    rw [parts_extended] at hp
    rcases Table.mem_of_mem_set hp with old | new
    · exact h.lengths index contents old
    · cases new
      exact length

theorem IsWithin.sorted (h : b.IsWithin size) : b.sorted.IsWithin size where
  distinct := nodup_keys_sortParts h.distinct
  indices := fun index hi => h.indices index (mem_keys_sorted.mp hi)
  lengths := fun index contents hp =>
    h.lengths index contents ((sortParts_perm b.parts).mem_iff.mp hp)

theorem IsWithin.length_parts_le (h : b.IsWithin size) : b.parts.length ≤ Part.maxParts := by
  have inside : b.parts.keys.Subperm Part.indices :=
    List.subperm_of_subset h.distinct fun index hi => Part.mem_indices.mpr (h.indices index hi)
  have length := inside.length_le
  rwa [Table.keys, List.length_map, Part.indices, List.length_map, List.length_range] at length

theorem IsWithin.held_le (h : b.IsWithin size) (room : 0 < Part.firstCapacity size) :
    b.held ≤ Part.maxPayload size := by
  have each : b.held ≤ (b.parts.map fun part => Part.quota size part.1).sum :=
    List.sum_le_sum fun part hp => h.lengths part.1 part.2 hp
  have total := Part.sum_quota_le room h.distinct h.indices
  rw [Table.keys, List.map_map] at total
  exact Int.le_trans (Int.ofNat_le.mpr each) total

/-- A message is no longer than what the buffer that it comes of can hold. -/
theorem IsWithin.length_payload_le {m : Message} (h : b.IsWithin size)
    (room : 0 < Part.firstCapacity size) (complete : b.complete? = .ok (some m)) :
    m.payload.length ≤ Part.maxPayload size := by
  obtain ⟨n, rfl, present⟩ := complete?_eq_some complete
  have there : ∀ index ∈ (List.range n.toNat).map Int.ofNat, index ∈ b.parts.keys := by
    intro index hi
    obtain ⟨i, hr, rfl⟩ := List.mem_map.mp hi
    have below := List.mem_range.mp hr
    exact present i (Int.natCast_nonneg i) (by omega)
  have each : (b.payload n).length
      ≤ (((List.range n.toNat).map Int.ofNat).map (Part.quota size)).sum := by
    rw [payload, List.length_flatMap, List.map_map]
    refine List.sum_le_sum fun i _ => ?_
    cases found : b.parts.get? i with
    | none => exact Nat.zero_le _
    | some contents => exact h.lengths i contents (Table.mem_of_get? found)
  have distinct : ((List.range n.toNat).map Int.ofNat).Nodup :=
    List.Pairwise.map Int.ofNat (fun _ _ ne same => ne (Int.ofNat.inj same)) List.nodup_range
  have total := Part.sum_quota_le room distinct fun index hi => h.indices index (there index hi)
  exact Int.le_trans (Int.ofNat_le.mpr each) total

/-- A buffer that holds no more than a message of the size can. -/
structure Fits (b : Buffer) (size : Int) : Prop where
  parts : b.parts.length ≤ Part.maxParts
  each : ∀ index contents, (index, contents) ∈ b.parts →
    contents.length ≤ Part.capacity size ∧ (index = 0 → contents.length ≤ Part.firstCapacity size)
  all : b.held ≤ Part.maxPayload size

theorem IsWithin.fits (h : b.IsWithin size) (room : 0 < Part.firstCapacity size) :
    b.Fits size where
  parts := h.length_parts_le
  each := by
    intro index contents hp
    have positive := Part.capacity_pos room
    have length := h.lengths index contents hp
    have less : Part.firstCapacity size ≤ Part.capacity size := by
      rw [Part.firstCapacity, Part.firstHeaderLength, Part.capacity]
      omega
    rw [Part.quota] at length
    split at length
    · exact ⟨by omega, fun _ => by omega⟩
    next later => exact ⟨by omega, fun zero => absurd zero later⟩
  all := h.held_le room

end Within

end Buffer

/-! ## States within bounds -/

namespace Reassembler

/-- A state whose raw entries are buffers, all of them within bounds. -/
def HoldsWithin (r : Reassembler) (s : State) : Prop :=
  ∀ raw ∈ Table.keys s.store, ∃ key b, raw = r.place key ∧ r.load s key = .ok (some b) ∧
    b.IsWithin r.maxFragmentSize

variable {r : Reassembler} {now : Int} {s t : State} {key : Text} {d : Delivery} {part : Part}
  {b : Buffer} {message : Option Message}

theorem HoldsWithin.isWithin_of_load (h : r.HoldsWithin s) (loaded : r.load s key = .ok (some b)) :
    b.IsWithin r.maxFragmentSize := by
  obtain ⟨_, read, _⟩ := load_eq_some loaded
  obtain ⟨other, b', same, loaded', within⟩ := h _ (place_mem_of_get read)
  rw [← place_injective same, loaded] at loaded'
  cases loaded'
  exact within

theorem HoldsWithin.delete (h : r.HoldsWithin s) (key : Text) : r.HoldsWithin (r.delete s key) := by
  intro raw hr
  obtain ⟨stored, ne⟩ := Table.mem_keys_erase.mp hr
  obtain ⟨other, b, rfl, loaded, within⟩ := h raw stored
  have apart : key ≠ other := fun same => ne (by rw [same]; rfl)
  exact ⟨other, b, rfl, (sameSlot_delete apart).load.symm.trans loaded, within⟩

theorem HoldsWithin.prune (h : r.HoldsWithin s) (now : Int) : r.HoldsWithin (r.prune now s) := by
  rw [Reassembler.prune]
  generalize r.stale now s = keys
  induction keys generalizing s with
  | nil => exact h
  | cons key keys ih => exact ih (h.delete key)

theorem HoldsWithin.save (h : r.HoldsWithin s) (saved : r.save now s key b = .ok t)
    (storable : b.IsStorable) (within : b.IsWithin r.maxFragmentSize) : r.HoldsWithin t := by
  intro raw hr
  by_cases own : raw = r.place key
  · exact ⟨key, b.sorted, own, load_save saved storable, within.sorted⟩
  · have stored : raw ∈ Table.keys s.store := by
      obtain ⟨data, store, _, written, rfl⟩ := save_eq_ok saved
      obtain ⟨bs, _, rfl⟩ := View.set_eq_ok written
      exact (Table.mem_keys_set.mp hr).resolve_right own
    obtain ⟨other, b', rfl, loaded, within'⟩ := h raw stored
    have apart : key ≠ other := fun same => own (by rw [same])
    exact ⟨other, b', rfl, (sameSlot_save saved apart).load.symm.trans loaded, within'⟩

/-- A checked part leaves a buffer within bounds, whatever it replaces there. -/
theorem HoldsWithin.isWithin_of_extend (h : r.HoldsWithin s) (checked : r.check d = .ok (part, key))
    (extended : r.extend now s d part key = .ok (b, message)) :
    b.IsWithin r.maxFragmentSize := by
  obtain ⟨parsed, limit, _⟩ := check_eq_ok checked
  obtain ⟨opened, found, rfl, _⟩ := extend_eq_ok extended
  have within : opened.IsWithin r.maxFragmentSize := by
    rcases bufferFor_eq_ok found with loaded | ⟨_, rfl⟩
    · exact h.isWithin_of_load loaded
    · exact Buffer.isWithin_of_no_parts rfl
  exact within.extended (Part.parse_inBounds parsed).index.1 limit
    (Part.length_contents_le parsed (length_of_check checked)) d.residue

theorem HoldsWithin.handle (h : r.HoldsWithin s) (valid : d.sender.IsValid) :
    r.HoldsWithin (r.handle now s d).2 := by
  cases checked : r.check d with
  | error e =>
    rw [handle_of_check_error checked]
    exact h
  | ok result =>
    obtain ⟨part, key⟩ := result
    have pruned := h.prune now
    rcases handle_cases now s checked with ⟨e, eq⟩ | ⟨b, t, extended, saved, eq⟩ | ⟨b, m, _, eq⟩
    · rw [eq]
      exact pruned
    · rw [eq]
      exact pruned.save saved (isStorable_of_extend valid checked extended)
        (pruned.isWithin_of_extend checked extended)
    · rw [eq]
      exact pruned.delete key

theorem HoldsWithin.length_payload_le {m : Message} {residue : Option Bytes}
    (h : r.HoldsWithin s) (room : 0 < Part.firstCapacity r.maxFragmentSize)
    (completed : (r.handle now s d).1 = .ok (.complete m residue)) :
    m.payload.length ≤ Part.maxPayload r.maxFragmentSize := by
  cases checked : r.check d with
  | error e =>
    rw [handle_of_check_error checked] at completed
    cases completed
  | ok result =>
    obtain ⟨part, key⟩ := result
    obtain ⟨b, extended⟩ := extend_of_complete checked completed
    obtain ⟨_, _, _, completion⟩ := extend_eq_ok extended
    exact ((h.prune now).isWithin_of_extend checked extended).length_payload_le room completion

end Reassembler

/-! ## Runs -/

/-- Whether a message that an answer gives, if it gives one, has no more than so many bytes. -/
def Answer.GivesAtMost (limit : Int) (answer : Answer) : Prop :=
  ∀ m residue, answer = .handled (.ok (.complete m residue)) → m.payload.length ≤ limit

/-- The world that reassemblers lead to that take the place of one another, each with what it goes
through. -/
def World.succeed (w : World) : List (Reassembler × List Operation) → World
  | [] => w
  | (r, ops) :: later => succeed (r.run w.restart ops) later

/-- What happens on the way. -/
def World.annals (w : World) : List (Reassembler × List Operation) → List Event
  | [] => []
  | (r, ops) :: later => r.history w.restart ops ++ annals (r.run w.restart ops) later

namespace Reassembler

variable {r : Reassembler} {w : World}

theorem HoldsWithin.step (h : r.HoldsWithin w.state)
    (room : 0 < Part.firstCapacity r.maxFragmentSize) {op : Operation}
    (valid : op.HasValidSender) :
    r.HoldsWithin (r.step w op).2.state ∧
      (r.step w op).1.GivesAtMost (Part.maxPayload r.maxFragmentSize) := by
  cases op with
  | deliver d =>
    refine ⟨h.handle valid, fun m residue given => ?_⟩
    exact h.length_payload_le room (Answer.handled.inj given)
  | prune => exact ⟨h.prune w.now, fun _ _ given => by cases given⟩
  | advance ms => exact ⟨h, fun _ _ given => by cases given⟩

theorem HoldsWithin.run (h : r.HoldsWithin w.state)
    (room : 0 < Part.firstCapacity r.maxFragmentSize) {ops : List Operation}
    (valid : ∀ op ∈ ops, op.HasValidSender) :
    r.HoldsWithin (r.run w ops).state ∧
      ∀ event ∈ r.history w ops,
        event.answer.GivesAtMost (Part.maxPayload r.maxFragmentSize) := by
  induction ops generalizing w with
  | nil => exact ⟨h, fun _ never => absurd never List.not_mem_nil⟩
  | cons op ops ih =>
    obtain ⟨after, given⟩ := h.step room (valid op List.mem_cons_self)
    obtain ⟨final, later⟩ := ih after fun op ho => valid op (List.mem_cons_of_mem _ ho)
    refine ⟨final, fun event he => ?_⟩
    rcases List.mem_cons.mp he with rfl | rest
    · exact given
    · exact later event rest

/-- Bounds are those of the view and of the size, and no others. -/
theorem HoldsWithin.congr {r' : Reassembler} {s : State} (h : r.HoldsWithin s)
    (view : r.view = r'.view) (size : r.maxFragmentSize = r'.maxFragmentSize) :
    r'.HoldsWithin s := by
  cases r
  cases r'
  cases view
  cases size
  exact h

section Succession

variable {root : View} {maxFragmentSize : Int} {lives : List (Reassembler × List Operation)}

/-- What holds for one reassembler of a size holds for all of them. -/
theorem holdsWithin_succeed
    (h : ∀ r ttlMs, create root maxFragmentSize ttlMs = .ok r → r.HoldsWithin w.state)
    (made : ∀ life ∈ lives, ∃ ttlMs, create root maxFragmentSize ttlMs = .ok life.1)
    (valid : ∀ life ∈ lives, ∀ op ∈ life.2, op.HasValidSender) :
    (∀ r ttlMs, create root maxFragmentSize ttlMs = .ok r →
      r.HoldsWithin (w.succeed lives).state) ∧
    ∀ event ∈ w.annals lives, event.answer.GivesAtMost (Part.maxPayload maxFragmentSize) := by
  induction lives generalizing w with
  | nil => exact ⟨h, fun _ never => absurd never List.not_mem_nil⟩
  | cons life lives ih =>
    obtain ⟨r, ops⟩ := life
    obtain ⟨ttlMs, created⟩ := made _ List.mem_cons_self
    obtain ⟨child, size, positive, _⟩ := create_eq_ok created
    have begun : r.HoldsWithin w.restart.state := h r ttlMs created
    have room : 0 < Part.firstCapacity r.maxFragmentSize := by
      rw [size, Part.firstCapacity]
      omega
    obtain ⟨after, given⟩ := begun.run room (valid _ List.mem_cons_self)
    have others : ∀ r' ttlMs', create root maxFragmentSize ttlMs' = .ok r' →
        r'.HoldsWithin (r.run w.restart ops).state := by
      intro r' ttlMs' created'
      obtain ⟨child', size', _⟩ := create_eq_ok created'
      rw [child] at child'
      exact after.congr (Except.ok.inj child') (size.trans size'.symm)
    obtain ⟨final, later⟩ := ih others (fun life hl => made life (List.mem_cons_of_mem _ hl))
      fun life hl => valid life (List.mem_cons_of_mem _ hl)
    refine ⟨final, fun event he => ?_⟩
    rcases List.mem_append.mp he with first | rest
    · exact size ▸ given event first
    · exact later event rest

/-- From the empty store on, whatever comes in and however often the reassembler is replaced by one
of the same size, what is stored are buffers that hold no more than a message of that size can, and
no message is longer. -/
theorem capacity_bounds (start : Int)
    (made : ∀ life ∈ lives, ∃ ttlMs, create root maxFragmentSize ttlMs = .ok life.1)
    (valid : ∀ life ∈ lives, ∀ op ∈ life.2, op.HasValidSender) :
    (∀ r ttlMs, create root maxFragmentSize ttlMs = .ok r →
      ∀ raw ∈ Table.keys (World.succeed ⟨start, {}⟩ lives).state.store,
        ∃ key b, raw = r.place key ∧
          r.load (World.succeed ⟨start, {}⟩ lives).state key = .ok (some b) ∧
            b.Fits maxFragmentSize) ∧
    ∀ event ∈ World.annals ⟨start, {}⟩ lives,
      event.answer.GivesAtMost (Part.maxPayload maxFragmentSize) := by
  have empty : ∀ r ttlMs, create root maxFragmentSize ttlMs = .ok r →
      r.HoldsWithin (World.mk start {}).state :=
    fun _ _ _ _ never => absurd never List.not_mem_nil
  obtain ⟨holds, given⟩ := holdsWithin_succeed empty made valid
  refine ⟨fun r ttlMs created raw hr => ?_, given⟩
  obtain ⟨_, size, positive, _⟩ := create_eq_ok created
  obtain ⟨key, b, place, loaded, within⟩ := holds r ttlMs created raw hr
  rw [size] at within
  exact ⟨key, b, place, loaded, within.fits (by rw [Part.firstCapacity]; omega)⟩

end Succession

/-- The straggler, and a reassembler that finds its buffer. -/
def heirs : List (Reassembler × List Operation) :=
  [(narrow, [.deliver straggler]), ({ narrow with ttlMs := 5 }, [.advance 5, .prune])]

theorem capacity_bounds_straggler : ∃ b,
    narrow.load (World.succeed ⟨0, {}⟩ heirs).state stragglerKey = .ok (some b) ∧ b.Fits 64 := by
  have made : ∀ life ∈ heirs, ∃ ttlMs, create View.shallow 64 ttlMs = .ok life.1 := by
    intro life hl
    rw [heirs, List.mem_pair] at hl
    rcases hl with rfl | rfl
    · exact ⟨1000, rfl⟩
    · exact ⟨5, rfl⟩
  have valid : ∀ life ∈ heirs, ∀ op ∈ life.2, op.HasValidSender := by
    intro life hl op ho
    rw [heirs, List.mem_pair] at hl
    rcases hl with rfl | rfl
    · rw [List.mem_singleton.mp ho]
      exact rfl
    · rcases List.mem_pair.mp ho with rfl | rfl <;> trivial
  obtain ⟨t, answer⟩ := handle_straggler
  obtain ⟨_, t, _, saved, state⟩ := extend_of_pending check_straggler (congrArg Prod.fst answer)
  have store : (World.succeed ⟨0, {}⟩ heirs).state.store = t.store := by
    rw [← state]
    show (Reassembler.run _ (World.restart ⟨0, (narrow.handle 0 {} straggler).2⟩) _).state.store = _
    generalize (narrow.handle 0 {} straggler).2 = found
    rfl
  have stored := stored_of_save saved
  rw [← store] at stored
  obtain ⟨key, b, same, found⟩ := (capacity_bounds 0 made valid).1 narrow 1000 rfl _ stored
  exact ⟨b, place_injective same ▸ found⟩

end Reassembler

end Reassembly

end PartRelay
