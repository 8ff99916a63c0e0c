import PartRelay.Proofs.Reassembly.Keys
import PartRelay.Proofs.Reassembly.Tracking

/-!
# What is answered at all

A part of a valid sender gets one of few answers, as long as the clock can be written: it is refused
as malformed or as a conflict, it waits, or it completes a message whose numbers are bounded. There
is one answer more, for a fingerprint that the key cannot measure. No answer speaks of a store that
cannot be read or of a number that cannot be written.
-/

namespace PartRelay.Reassembly

/-! ## Bounds of a message -/

/-- The bounds that the headers of the parts set to the numbers of a message. -/
structure Message.IsBounded (m : Message) : Prop where
  messageId : 0 ≤ m.messageId ∧ m.messageId < 0x100000000
  messageType : 0 ≤ m.messageType ∧ m.messageType < 0x100000000
  timestampNs : 0 ≤ m.timestampNs ∧ m.timestampNs < 0x10000000000000000
  payload : m.payload.length ≤ 255 * 0x10000

theorem length_flatMap_le {α β : Type} {limit : Nat} {l : List α} {f : α → List β}
    (h : ∀ a ∈ l, (f a).length ≤ limit) : (l.flatMap f).length ≤ l.length * limit := by
  induction l with
  | nil => simp
  | cons a l ih =>
    have head := h a List.mem_cons_self
    have rest := ih fun b hb => h b (List.mem_cons_of_mem _ hb)
    rw [List.flatMap_cons, List.length_append, List.length_cons, Nat.succ_mul]
    omega

namespace Window

variable {win : Window}

/-- No index holds more than one part can carry. -/
theorem length_contents?_le {r : Reassembler} {key : Text}
    (checked : ∀ call ∈ win, r.check call.delivery = .ok (call.part, key)) (index : Int) :
    ((win.contents? index).getD []).length ≤ 0x10000 := by
  cases found : win.contents? index with
  | none => exact Nat.zero_le _
  | some contents =>
    obtain ⟨call, latest, rfl⟩ := Option.map_eq_some_iff.mp found
    have hc := (List.mem_filter.mp (List.mem_of_getLast? latest)).1
    obtain ⟨parsed, _, _⟩ := Reassembler.check_eq_ok (checked call hc)
    exact Nat.le_of_lt (Part.length_contents parsed)

theorem length_payload_le {r : Reassembler} {key : Text} {n : Int}
    (checked : ∀ call ∈ win, r.check call.delivery = .ok (call.part, key)) (small : n < 256) :
    (win.payload n).length ≤ 255 * 0x10000 := by
  have pieces : (win.payload n).length ≤ (List.range n.toNat).length * 0x10000 :=
    length_flatMap_le fun i _ => length_contents?_le checked i
  rw [List.length_range] at pieces
  have count : n.toNat ≤ 255 := by omega
  exact Nat.le_trans pieces (Nat.mul_le_mul_right _ count)

end Window

/-! ## Answers -/

namespace Reassembler

variable {r : Reassembler} {now : Int} {s : State} {key : Text} {win : Window} {d : Delivery}
  {part : Part}

/-- The answers to a part of a valid sender. -/
inductive IsOrderly (d : Delivery) : Except Refusal Progress → Prop where
  | malformed (cause : Part.Error) : IsOrderly d (.error (.part cause))
  | conflict (cause : Conflict) : IsOrderly d (.error (.conflict cause))
  | unmeasured (long : 0x100000000 ≤ (d.fingerprint.getD []).length) :
      IsOrderly d (.error (.key .tooBig))
  | pending : IsOrderly d (.ok .pending)
  | complete (m : Message) (residue : Option Bytes) (bounded : m.IsBounded) :
      IsOrderly d (.ok (.complete m residue))

theorem isOrderly_of_misfit {e : Refusal} (h : IsMisfit e part) : IsOrderly d (.error e) := by
  cases part with
  | first p =>
    obtain ⟨conflict, rfl⟩ := h
    exact .conflict conflict
  | continuation p =>
    obtain ⟨shown, rfl⟩ := h
    exact .malformed _

/-- The checks find a part malformed, or its fingerprint too long. -/
theorem isOrderly_of_check_error {e : Refusal} (h : r.check d = .error e) :
    IsOrderly d (.error e) := by
  rw [check] at h
  split at h
  · cases h
    exact .malformed _
  split at h
  · cases h
    exact .malformed _
  next part parsed =>
    split at h
    · cases h
      exact .malformed _
    split at h
    next cause underived =>
      cases h
      have id := (Part.parse_inBounds parsed).messageId
      by_cases long : 0x100000000 ≤ (d.fingerprint.getD []).length
      · rw [conversationKey_of_long _ _ long] at underived
        cases underived
        exact .unmeasured long
      · obtain ⟨bs, material⟩ := keyMaterial_ok d.sender (Nat.not_le.mp long) id
        rw [conversationKey_of_material material] at underived
        cases underived
    next => cases h

theorem Tracks.isOrderly (h : Tracks r s key win) (valid : d.sender.IsValid)
    (checked : r.check d = .ok (part, key)) (written : Integer.isWritable now = true)
    (calls : ∀ call ∈ win, Integer.isWritable call.now = true ∧
      r.check call.delivery = .ok (call.part, key)) :
    IsOrderly d (r.handle now s d).1 := by
  by_cases admits : Window.Admits (win.live r.ttlMs now) part
  · by_cases complete : Window.IsComplete (win.live r.ttlMs now ++ [⟨now, d, part⟩])
    · obtain ⟨call, p, heading, eq⟩ := h.handle_complete valid checked admits complete
      rw [eq]
      -- Every call that the message is made of has been checked, this one too.
      have all : ∀ c ∈ win.live r.ttlMs now ++ [⟨now, d, part⟩],
          r.check c.delivery = .ok (c.part, key) := by
        intro c hc
        rcases List.mem_append.mp hc with old | new
        · exact (calls c (mem_of_mem_live old)).2
        · cases List.mem_singleton.mp new
          exact checked
      have bounds : ∀ c ∈ win.live r.ttlMs now ++ [⟨now, d, part⟩], c.part.InBounds :=
        fun c hc => Part.parse_inBounds (check_eq_ok (all c hc)).1
      have opener : (win.live r.ttlMs now).headD ⟨now, d, part⟩
          ∈ win.live r.ttlMs now ++ [⟨now, d, part⟩] := by
        cases win.live r.ttlMs now with
        | nil => exact List.mem_cons_self
        | cons first rest => exact List.mem_cons_self
      obtain ⟨c, hc, first⟩ := List.mem_filterMap.mp (List.mem_of_getLast? heading)
      rw [Call.first?] at first
      split at first
      next q same =>
        cases first
        obtain ⟨count, type, time⟩ := (bounds call hc).first p same
        exact .complete _ _ ⟨(bounds _ opener).messageId, type, time,
          Window.length_payload_le all count.2⟩
      next => cases first
    · obtain ⟨t, eq⟩ := h.handle_pending valid checked admits complete written
        fun call hc => (calls call hc).1
      rw [eq]
      exact .pending
  · obtain ⟨e, eq, misfit⟩ := h.handle_refused valid checked admits
    rw [eq]
    exact isOrderly_of_misfit misfit

/-- After every run from the empty store every part gets an orderly answer. -/
theorem isOrderly_handle {start : Int} {ops : List Operation}
    (valid : ∀ op ∈ ops, op.HasValidSender) (began : Integer.isWritable start = true)
    (written : Integer.isWritable (r.run ⟨start, {}⟩ ops).now = true) (sender : d.sender.IsValid) :
    IsOrderly d
      (r.handle (r.run ⟨start, {}⟩ ops).now (r.run ⟨start, {}⟩ ops).state d).1 := by
  cases checked : r.check d with
  | error e =>
    rw [handle_of_check_error checked]
    exact isOrderly_of_check_error checked
  | ok result =>
    obtain ⟨part, key⟩ := result
    have tracks : Tracks r (r.run ⟨start, {}⟩ ops).state key
        (r.window key (r.history ⟨start, {}⟩ ops)) :=
      tracks_window (lacks_empty r key) fun _ _ done _ => valid _ done
    refine tracks.isOrderly sender checked written fun call hc => ?_
    obtain ⟨_, after, before, taken⟩ := mem_window hc
    exact ⟨Integer.isWritable_of_between began written after before, taken⟩

end Reassembler

end PartRelay.Reassembly
