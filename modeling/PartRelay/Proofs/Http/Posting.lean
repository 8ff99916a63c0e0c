import PartRelay.Proofs.Http.Decisions
import PartRelay.Proofs.Reassembly.RoundTrip

/-!
# Parts posted to a server

The parts of a transfer are posted to a server, one part with each request and every part once. In
whatever order they come and however the time passes between them, each is accepted; the last one
completes the message, whichever part it is.
-/

namespace PartRelay

/-! ## Transfers that arrive alone -/

namespace Reassembly

/-- The numbers of a message that has been cut into parts are bounded as those of its parts are. -/
theorem Transfer.isBounded (m : Transfer) : m.message.IsBounded := by
  obtain ⟨pieces, cut⟩ := m.exists_isCut
  have bounds := Part.parse_inBounds (cut.parsed 0 cut.length_pos)
  obtain ⟨_, type, time⟩ := bounds.first _ rfl
  refine ⟨bounds.messageId, type, time, ?_⟩
  have small : ∀ piece ∈ pieces, piece.length ≤ 0x10000 := by
    intro piece hp
    obtain ⟨i, hi, rfl⟩ := List.getElem_of_mem hp
    have length := Part.length_contents (cut.parsed i (cut.count.symm ▸ hi))
    rw [Part.contents_ofPieces, List.getElem?_eq_getElem hi] at length
    exact Nat.le_of_lt length
  have total : (pieces.flatMap id).length ≤ pieces.length * 0x10000 := length_flatMap_le small
  have count : pieces.length ≤ 255 := cut.bounds.2
  rw [List.flatMap_id, cut.payload] at total
  exact Nat.le_trans total (Nat.mul_le_mul_right _ count)

/-- Every part of a transfer has its own bytes. -/
theorem Transfer.nodup_parts (m : Transfer) : m.parts.Nodup := by
  obtain ⟨pieces, cut⟩ := m.exists_isCut
  rw [List.Nodup, List.pairwise_iff_getElem]
  intro i j hi hj less same
  have index := congrArg (Except.map Part.index) ((cut.parsed i hi).symm.trans
    (same ▸ cut.parsed j hj))
  simp only [Except.map, Part.index_ofPieces, Except.ok.injEq] at index
  omega

/-- What a single conversation brings has nothing to collide with. -/
theorem HashSeparates.of_owned {m : Transfer} {deliveries : List Delivery}
    (owned : ∀ d ∈ deliveries, m.Owns d) : HashSeparates deliveries := by
  obtain ⟨pieces, cut⟩ := m.exists_isCut
  have one : ∀ d ∈ deliveries, d.material? = (keyMaterial m.message.sender m.message.fingerprint
      m.message.messageId).toOption := by
    intro d hd
    obtain ⟨sender, fingerprint, among⟩ := owned d hd
    obtain ⟨i, hi, eq⟩ := List.getElem_of_mem among
    rw [Delivery.material?, ← eq, cut.parsed i hi]
    simp only [sender, fingerprint, Part.messageId_ofPieces]
  intro d hd d' hd' material material' hm hm' _
  rw [one d hd] at hm
  rw [one d' hd', hm] at hm'
  exact Option.some.inj hm'

end Reassembly

namespace Http

open Reassembly (Transfer Operation)

variable {server : Server} {m : Transfer} {w : World} {activities pre post : List Activity}
  {q : Request} {f : Fragment}

/-! ## Activities and their deliveries -/

theorem submitted_append (pre post : List Activity) :
    server.submitted (pre ++ post) = server.submitted pre ++ server.submitted post := by
  simp [Server.submitted, requests, List.filterMap_append]

theorem submitted_request (submitted : server.Submits q f) (post : List Activity) :
    server.submitted (.request q :: post) = f :: server.submitted post := by
  simp [Server.submitted, requests, submission?_eq_some.mpr submitted]

theorem operations_of_submits (submitted : server.Submits q f) :
    server.operations (.request q) = [.deliver (Intake.deliveryOf f)] := by
  rw [Server.operations, submission?_eq_some.mpr submitted]
  rfl

theorem deliveries_operation (activity : Activity) :
    Reassembly.deliveries (server.operations activity)
      = (server.submitted [activity]).map Intake.deliveryOf := by
  cases activity with
  | wait ms => rfl
  | request q =>
    cases submitted : server.submission? q with
    | none => simp [Server.operations, Server.submitted, requests, submitted, Reassembly.deliveries]
    | some f =>
      rw [operations_of_submits (submission?_eq_some.mp submitted),
        submitted_request (submission?_eq_some.mp submitted)]
      rfl

/-- What activities bring to the reassembler is what they submit. -/
theorem deliveries_operations (activities : List Activity) :
    Reassembly.deliveries (activities.flatMap server.operations)
      = (server.submitted activities).map Intake.deliveryOf := by
  induction activities with
  | nil => rfl
  | cons activity activities ih =>
    rw [← List.singleton_append, submitted_append, List.map_append, ← ih, ← deliveries_operation]
    simp [Reassembly.deliveries]

/-! ## Parts of a transfer, posted one by one -/

/-- Activities that bring the parts of a transfer to a server, each with one request and before the
first can expire. -/
structure Posting (server : Server) (m : Transfer) (w : World) (activities : List Activity) :
    Prop where
  fits : m.size ≤ server.reassembler.maxFragmentSize
  size : Integer.isWritable server.reassembler.maxFragmentSize = true
  lacks : server.reassembler.Lacks w.state.buffers m.key
  submits : ∀ q ∈ requests activities, ∃ f, server.Submits q f
  owned : ∀ f ∈ server.submitted activities,
    f.sender = m.message.sender ∧ f.fingerprint.getD [] = m.message.fingerprint
  each : ((server.submitted activities).map Fragment.payload).Perm m.parts
  began : Integer.isWritable w.now = true
  written : Integer.isWritable (server.run w activities).now = true
  timely : (server.run w activities).now < w.now + server.reassembler.ttlMs

namespace Posting

/-- The clock can be written all the way. -/
theorem written_at (h : Posting server m w activities) (eq : activities = pre ++ post) :
    Integer.isWritable (server.run w pre).now = true := by
  refine Integer.isWritable_of_between h.began h.written (server.now_le_run w pre) ?_
  rw [eq, server.run_append]
  exact server.now_le_run _ post

theorem owns (h : Posting server m w activities) (hf : f ∈ server.submitted activities) :
    m.Owns (Intake.deliveryOf f) := by
  obtain ⟨sender, fingerprint⟩ := h.owned f hf
  exact ⟨sender, fingerprint, h.each.mem_iff.mp (List.mem_map_of_mem hf)⟩

theorem owns_of_mem (h : Posting server m w activities) {d : Reassembly.Delivery}
    (hd : .deliver d ∈ activities.flatMap server.operations) : m.Owns d := by
  rw [← Reassembly.mem_deliveries_iff, deliveries_operations] at hd
  obtain ⟨f, hf, rfl⟩ := List.mem_map.mp hd
  exact h.owns hf

/-- There is always a part, and it comes from a valid sender. -/
theorem isValid_sender (h : Posting server m w activities) : m.message.sender.IsValid := by
  obtain ⟨pieces, cut⟩ := m.exists_isCut
  obtain ⟨f, hf, _⟩ := List.mem_map.mp (h.each.mem_iff.mpr (List.getElem_mem cut.length_pos))
  obtain ⟨q, _, submitted⟩ := List.mem_filterMap.mp hf
  exact (h.owned f hf).1 ▸ isValid_of_submits (submission?_eq_some.mp submitted)

/-- Seen from the reassembler, the requests carry the transfer and nothing else. -/
theorem carries (h : Posting server m w activities) :
    m.Carries server.reassembler w.inner (activities.flatMap server.operations) where
  sender := h.isValid_sender
  fits := h.fits
  lacks := h.lacks
  only := fun _ hd => .inl (h.owns_of_mem hd)
  separates := .of_owned fun _ hd => h.owns_of_mem (Reassembly.mem_deliveries_iff.mp hd)
  began := h.began
  written := by
    rw [← inner_run]
    exact h.written
  timely := by
    intro event happened _ _ _
    obtain ⟨_, after, _⟩ := Reassembly.Reassembler.mem_history _ _ happened
    have start : w.now ≤ event.now := after
    have timely := h.timely
    rw [← inner_run]
    show (server.run w activities).now < _
    omega

/-- A part is missing as long as there is one more request. -/
theorem isMissing_iff (h : Posting server m w activities) (eq : activities = pre ++ post) :
    m.IsMissing (pre.flatMap server.operations) ↔ server.submitted post ≠ [] := by
  have whole : server.submitted activities = server.submitted pre ++ server.submitted post := by
    rw [eq, submitted_append]
  have arrived : m.arrived (pre.flatMap server.operations)
      = (server.submitted pre).map Intake.deliveryOf := by
    rw [Transfer.arrived, deliveries_operations, List.filter_eq_self]
    intro d hd
    obtain ⟨f, hf, rfl⟩ := List.mem_map.mp hd
    exact decide_eq_true (h.owns (whole ▸ List.mem_append_left _ hf))
  rw [Transfer.IsMissing, arrived]
  constructor
  · rintro ⟨bs, among, absent⟩ none
    obtain ⟨f, hf, rfl⟩ := List.mem_map.mp (h.each.mem_iff.mpr among)
    rw [whole, none, List.append_nil] at hf
    exact absent _ (List.mem_map_of_mem hf) rfl
  · intro more
    obtain ⟨f, hf⟩ := List.exists_mem_of_ne_nil _ more
    have inside : f ∈ server.submitted activities := whole ▸ List.mem_append_right _ hf
    refine ⟨f.payload, h.each.mem_iff.mp (List.mem_map_of_mem inside), ?_⟩
    intro d hd same
    obtain ⟨g, hg, rfl⟩ := List.mem_map.mp hd
    -- No two requests bring the same part.
    have once : ((server.submitted activities).map Fragment.payload).Nodup :=
      h.each.nodup_iff.mpr m.nodup_parts
    rw [whole, List.map_append, List.nodup_append] at once
    exact once.2.2 _ (List.mem_map_of_mem hg) _ (List.mem_map_of_mem hf) same

theorem operations_at (eq : activities = pre ++ .request q :: post)
    (submitted : server.Submits q f) :
    activities.flatMap server.operations = pre.flatMap server.operations ++
      .deliver (Intake.deliveryOf f) :: post.flatMap server.operations := by
  rw [eq, List.flatMap_append, List.flatMap_cons, operations_of_submits submitted,
    List.singleton_append]

theorem isMissing_before (h : Posting server m w activities)
    (eq : activities = pre ++ .request q :: post) (submitted : server.Submits q f) :
    m.IsMissing (pre.flatMap server.operations) := by
  rw [h.isMissing_iff eq, submitted_request submitted]
  exact List.cons_ne_nil _ _

theorem isMissing_after_iff (h : Posting server m w activities)
    (eq : activities = pre ++ .request q :: post) (submitted : server.Submits q f) :
    m.IsMissing (pre.flatMap server.operations ++ [.deliver (Intake.deliveryOf f)])
      ↔ server.submitted post ≠ [] := by
  have shifted : activities = (pre ++ [.request q]) ++ post := by
    rw [eq, List.append_assoc, List.singleton_append]
  rw [← h.isMissing_iff shifted, List.flatMap_append, List.flatMap_singleton,
    operations_of_submits submitted]

/-- What the reassembler answers to a request: it waits for the parts that are still to be posted,
and with the last one it has the message. -/
theorem progress (h : Posting server m w activities) (eq : activities = pre ++ .request q :: post)
    (submitted : server.Submits q f) :
    ∃ progress, (server.reassembler.handle (server.run w pre).now (server.run w pre).state.buffers
        (Intake.deliveryOf f)).1 = .ok progress ∧
      Reassembly.Reassembler.IsOrderly (Intake.deliveryOf f) (.ok progress) ∧
      Intake.receiptOf f progress = if server.submitted post = [] then Intake.completing f m.message
        else Intake.waiting f := by
  have carries := h.carries
  have inside : f ∈ server.submitted activities := by
    rw [eq, submitted_append, submitted_request submitted]
    exact List.mem_append_right _ List.mem_cons_self
  have own := h.owns inside
  have ops := operations_at eq submitted
  have hd : Operation.deliver (Intake.deliveryOf f) ∈ activities.flatMap server.operations :=
    ops ▸ List.mem_append_right _ List.mem_cons_self
  have gathered := carries.gathered hd own ops (h.isMissing_before eq submitted)
  have after := h.isMissing_after_iff eq submitted
  have inner := inner_run server w pre
  by_cases last : server.submitted post = []
  · obtain ⟨pieces, cut⟩ := m.exists_isCut
    obtain ⟨i, _, _, checked⟩ := cut.check_of_owns h.fits own
    have complete := (carries.isComplete_append_iff ops own cut checked gathered).mpr
      fun missing => after.mp missing last
    obtain ⟨latest, _, answer⟩ := carries.handle_complete ops own checked complete
    rw [← inner] at answer
    refine ⟨_, congrArg Prod.fst answer, .complete _ _ m.isBounded, ?_⟩
    rw [if_pos last, Intake.receiptOf]
  · obtain ⟨t, answer⟩ := carries.handle_pending ops own gathered (after.mpr last)
    rw [← inner] at answer
    refine ⟨_, congrArg Prod.fst answer, .pending, ?_⟩
    rw [if_neg last, Intake.receiptOf]

/-- The receipts for the parts of a transfer: the last one brings the message. -/
def receipts (m : Transfer) : List Fragment → List Intake.Receipt
  | [] => []
  | [f] => [Intake.completing f m.message]
  | f :: g :: later => Intake.waiting f :: receipts m (g :: later)

theorem receipts_cons (m : Transfer) (f : Fragment) (later : List Fragment) :
    receipts m (f :: later)
      = (if later = [] then Intake.completing f m.message else Intake.waiting f) ::
        receipts m later := by
  cases later <;> simp [receipts]

theorem responses_from (h : Posting server m w activities) (eq : activities = pre ++ post) :
    server.responses (server.run w pre) post
      = (receipts m (server.submitted post)).map fun receipt =>
        .ok (jsonAnswer 200 receipt.toJson) := by
  -- `pre` takes up one activity after the other; it leads to the world of the next.
  induction post generalizing pre with
  | nil => rfl
  | cons activity post ih =>
    have shifted : activities = (pre ++ [activity]) ++ post := by
      rw [eq, List.append_assoc, List.singleton_append]
    have rest := ih shifted
    rw [server.run_append] at rest
    cases activity with
    | wait ms => exact rest
    | request q =>
      have among : q ∈ requests activities := by
        rw [eq]
        simp [requests]
      obtain ⟨f, submitted⟩ := h.submits q among
      obtain ⟨progress, taken, orderly, receipt⟩ := h.progress eq submitted
      obtain ⟨log, served⟩ := serve_accepted submitted taken orderly h.size (h.written_at eq)
      rw [submitted_request submitted, receipts_cons, List.map_cons, ← receipt, ← rest,
        Server.responses, served]
      rfl

/-- Every request gets a response, and each is the receipt for its part. -/
theorem responses_eq (h : Posting server m w activities) :
    server.responses w activities
      = (receipts m (server.submitted activities)).map fun receipt =>
        .ok (jsonAnswer 200 receipt.toJson) :=
  h.responses_from (List.nil_append activities).symm

end Posting

end Http

end PartRelay
