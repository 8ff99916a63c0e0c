import Mathlib.Data.List.Induction
import PartRelay.Proofs.Reassembly.Tracking
import PartRelay.Proofs.Reassembly.Transfer

/-!
# Split and put together again

Between the parts of a transfer anything else may happen: parts of other conversations come in or
are refused, buffers are pruned, time passes. As long as the first part of the transfer does not
expire, its parts are all taken in, and the last one that was missing gives back the message.
-/

namespace PartRelay.Reassembly

namespace Transfer

/-! ## Arrival -/

/-- The deliveries that bring parts of the transfer. -/
def arrived (m : Transfer) (ops : List Operation) : List Delivery :=
  (deliveries ops).filter fun d => m.Owns d

/-- Whether a part of the transfer has not arrived. -/
def IsMissing (m : Transfer) (ops : List Operation) : Prop :=
  ∃ bs ∈ m.parts, ∀ d ∈ m.arrived ops, d.contents ≠ bs

instance (m : Transfer) (ops : List Operation) : Decidable (m.IsMissing ops) :=
  inferInstanceAs (Decidable (∃ bs ∈ m.parts, ∀ d ∈ m.arrived ops, d.contents ≠ bs))

/-- What a run needs that brings the transfer, from a world without a slot for its key. -/
structure Carries (m : Transfer) (r : Reassembler) (w : World) (ops : List Operation) : Prop where
  sender : m.message.sender.IsValid
  fits : m.size ≤ r.maxFragmentSize
  lacks : r.Lacks w.state m.key
  only : ∀ d, .deliver d ∈ ops → m.Owns d ∨ m.Spares d
  separates : HashSeparates (deliveries ops)
  /-- With a time of too many digits nothing can be stored. -/
  began : Integer.isWritable w.now = true
  written : Integer.isWritable (r.run w ops).now = true
  timely : ∀ event ∈ r.history w ops, ∀ d, event.operation = .deliver d → m.Owns d →
    (r.run w ops).now < event.now + r.ttlMs

variable {m : Transfer} {r : Reassembler} {w : World} {ops pre post : List Operation}
  {d d₀ : Delivery} {pieces : List Bytes}

theorem arrived_append (pre post : List Operation) :
    m.arrived (pre ++ post) = m.arrived pre ++ m.arrived post := by
  simp [arrived, deliveries, List.filterMap_append, List.filter_append]

theorem arrived_deliver (own : m.Owns d) : m.arrived [.deliver d] = [d] := by
  simp [arrived, deliveries, own]

theorem arrived_other (other : ¬ m.Owns d) : m.arrived [.deliver d] = [] := by
  simp [arrived, deliveries, other]

theorem IsMissing.of_append (h : m.IsMissing (pre ++ post)) : m.IsMissing pre := by
  obtain ⟨bs, among, absent⟩ := h
  refine ⟨bs, among, fun d hd => absent d ?_⟩
  rw [arrived_append]
  exact List.mem_append_left _ hd

/-- The part that ends the waiting: there is one when nothing is missing in the end. -/
theorem exists_last_missing (before : m.IsMissing pre) (after : ¬ m.IsMissing (pre ++ post)) :
    ∃ pre' d post', pre ++ post = pre' ++ .deliver d :: post' ∧ m.Owns d ∧ m.IsMissing pre' ∧
      ¬ m.IsMissing (pre' ++ [.deliver d]) := by
  -- `pre` takes up one operation after the other until nothing is missing in it.
  induction post generalizing pre with
  | nil =>
    rw [List.append_nil] at after
    exact absurd before after
  | cons op post ih =>
    have shifted : pre ++ op :: post = (pre ++ [op]) ++ post := by simp
    by_cases still : m.IsMissing (pre ++ [op])
    · rw [shifted] at after ⊢
      exact ih still after
    · have new : m.arrived [op] ≠ [] := by
        intro none
        rw [IsMissing, arrived_append, none, List.append_nil] at still
        exact still before
      cases op with
      | deliver d =>
        by_cases own : m.Owns d
        · exact ⟨pre, d, post, rfl, own, before, still⟩
        · exact absurd (arrived_other own) new
      | prune => exact absurd rfl new
      | advance ms => exact absurd rfl new

namespace Carries

/-! ## The window of the transfer

The deliveries are those of a prefix `pre` of the run; `d₀` is one of the run's own, so that the
hash is known not to collide with the key of the transfer. -/

theorem owns_of_check (h : m.Carries r w ops) (hd₀ : .deliver d₀ ∈ ops) (own₀ : m.Owns d₀)
    (hd : .deliver d ∈ ops) {part : Part} (checked : r.check d = .ok (part, m.key)) :
    m.Owns d := by
  refine (h.only d hd).resolve_right fun ⟨length, other⟩ => ?_
  obtain ⟨pieces, cut⟩ := m.exists_isCut
  obtain ⟨i, _, _, checked₀⟩ := cut.check_of_owns h.fits own₀
  have lengths : d.sender.raw.length = d₀.sender.raw.length := by
    rw [length, own₀.1, h.sender.length_raw]
  obtain ⟨sender, fingerprint, id⟩ := h.separates.same_conversation
    (mem_deliveries_iff.mpr hd) (mem_deliveries_iff.mpr hd₀) lengths checked checked₀
  rw [partAt, Part.messageId_ofPieces] at id
  obtain ⟨parsed, _, _⟩ := Reassembler.check_eq_ok checked
  exact other part parsed ⟨sender.trans own₀.1, fingerprint.trans own₀.2.1, id⟩

/-- The slot of the transfer follows its window, which holds parts of it that have not expired. -/
theorem window_facts (h : m.Carries r w ops) (hd₀ : .deliver d₀ ∈ ops) (own₀ : m.Owns d₀)
    (eq : ops = pre ++ post) :
    r.Tracks (r.run w pre).state m.key (r.window m.key (r.history w pre)) ∧
      m.Fills r (r.window m.key (r.history w pre)) ∧
      ∀ call ∈ r.window m.key (r.history w pre),
        (r.run w ops).now < call.now + r.ttlMs ∧ Integer.isWritable call.now = true := by
  have owned : ∀ d part, .deliver d ∈ pre → r.check d = .ok (part, m.key) → m.Owns d := by
    intro d part hd checked
    exact h.owns_of_check hd₀ own₀ (eq ▸ List.mem_append_left _ hd) checked
  refine ⟨Reassembler.tracks_window h.lacks fun d part hd checked => ?_, fun call hc => ?_,
    fun call hc => ?_⟩
  · rw [(owned d part hd checked).1]
    exact h.sender
  · obtain ⟨done, _, _, checked⟩ := Reassembler.mem_window hc
    exact ⟨owned _ _ done checked, checked⟩
  · rcases Reassembler.mem_foldl_after hc with none | ⟨event, happened, taken⟩
    · cases none
    · obtain ⟨done, after, before⟩ := r.mem_history w happened
      rw [taken.operation] at done
      have later := r.now_le_run (r.run w pre) post
      rw [← r.run_append, ← eq] at later
      have inside : event ∈ r.history w ops := by
        rw [eq, r.history_append]
        exact List.mem_append_left _ happened
      rw [← taken.now]
      exact ⟨h.timely event inside _ taken.operation (owned _ _ done taken.checked),
        Integer.isWritable_of_between h.began h.written after (Int.le_trans before later)⟩

theorem now_le (r : Reassembler) (w : World) (eq : ops = pre ++ post) :
    (r.run w pre).now ≤ (r.run w ops).now := by
  rw [eq, r.run_append]
  exact r.now_le_run _ _

theorem live_window (h : m.Carries r w ops) (hd₀ : .deliver d₀ ∈ ops) (own₀ : m.Owns d₀)
    (eq : ops = pre ++ post) :
    (r.window m.key (r.history w pre)).live r.ttlMs (r.run w pre).now
      = r.window m.key (r.history w pre) := by
  obtain ⟨_, _, young⟩ := h.window_facts hd₀ own₀ eq
  exact Window.live_of_young fun call hc => Int.lt_of_le_of_lt (now_le r w eq) (young call hc).1

/-- With one more part the window is complete exactly when nothing is missing. -/
theorem isComplete_append_iff (h : m.Carries r w ops) (eq : ops = pre ++ .deliver d :: post)
    (own : m.Owns d) (cut : m.IsCut pieces) {part : Part} (checked : r.check d = .ok (part, m.key))
    (gathered : (r.window m.key (r.history w pre)).map Call.delivery = m.arrived pre) :
    Window.IsComplete (r.window m.key (r.history w pre) ++ [⟨(r.run w pre).now, d, part⟩])
      ↔ ¬ m.IsMissing (pre ++ [.deliver d]) := by
  have hd : .deliver d ∈ ops := eq ▸ List.mem_append_right _ List.mem_cons_self
  obtain ⟨_, fills, _⟩ := h.window_facts hd own eq
  rw [(fills.append ⟨(r.run w pre).now, d, part⟩ own checked).isComplete_iff cut h.fits]
  have calls : ∀ bs, (∃ call ∈ r.window m.key (r.history w pre) ++ [⟨(r.run w pre).now, d, part⟩],
      call.delivery.contents = bs) ↔ ∃ d' ∈ m.arrived (pre ++ [.deliver d]), d'.contents = bs := by
    intro bs
    rw [arrived_append, arrived_deliver own, ← gathered]
    simp
  simp only [calls, IsMissing, not_exists, not_and, ne_eq, not_forall, Classical.not_not]
  simp only [exists_prop]

/-! ## Answers -/

/-- As long as a part is missing, the parts that arrive are taken in without a message. -/
theorem handle_pending (h : m.Carries r w ops) (eq : ops = pre ++ .deliver d :: post)
    (own : m.Owns d)
    (gathered : (r.window m.key (r.history w pre)).map Call.delivery = m.arrived pre)
    (missing : m.IsMissing (pre ++ [.deliver d])) :
    ∃ t, r.handle (r.run w pre).now (r.run w pre).state d = (.ok .pending, t) := by
  have hd : .deliver d ∈ ops := eq ▸ List.mem_append_right _ List.mem_cons_self
  obtain ⟨pieces, cut⟩ := m.exists_isCut
  obtain ⟨i, _, below, checked⟩ := cut.check_of_owns h.fits own
  obtain ⟨tracks, fills, young⟩ := h.window_facts hd own eq
  have complete := h.isComplete_append_iff eq own cut checked gathered
  have written := Integer.isWritable_of_between h.began h.written (r.now_le_run w pre)
    (now_le r w eq)
  refine tracks.handle_pending (own.1 ▸ h.sender) checked ?_ ?_ written fun call hc =>
    (young call hc).2
  · rw [h.live_window hd own eq]
    exact fills.admits cut h.fits below
  · rw [h.live_window hd own eq]
    exact fun all => complete.mp all missing

/-- The part that completes the window gives the message of the transfer, and the residue that came
with its latest first part. -/
theorem handle_complete (h : m.Carries r w ops) (eq : ops = pre ++ .deliver d :: post)
    (own : m.Owns d) {part : Part} (checked : r.check d = .ok (part, m.key))
    (complete : Window.IsComplete
      (r.window m.key (r.history w pre) ++ [⟨(r.run w pre).now, d, part⟩])) :
    ∃ latest, m.latestFirst? ((r.window m.key (r.history w pre)).map Call.delivery ++ [d])
        = some latest ∧
      r.handle (r.run w pre).now (r.run w pre).state d
        = (.ok (.complete m.message latest.residue),
          r.delete (r.prune (r.run w pre).now (r.run w pre).state) m.key) := by
  have hd : .deliver d ∈ ops := eq ▸ List.mem_append_right _ List.mem_cons_self
  obtain ⟨pieces, cut⟩ := m.exists_isCut
  obtain ⟨i, _, below, checked'⟩ := cut.check_of_owns h.fits own
  have same : part = m.partAt pieces i :=
    (Prod.mk.inj (Except.ok.inj (checked.symm.trans checked'))).1
  obtain ⟨tracks, fills, _⟩ := h.window_facts hd own eq
  have live := h.live_window hd own eq
  have new := fills.append ⟨(r.run w pre).now, d, part⟩ own checked
  obtain ⟨latest, p, heading, answer⟩ := tracks.handle_complete (own.1 ▸ h.sender) checked
    (by rw [live, same]; exact fills.admits cut h.fits below) (by rw [live]; exact complete)
  rw [live] at heading answer
  generalize r.window m.key (r.history w pre) = win at fills new complete heading answer ⊢
  obtain ⟨count, type, time⟩ := new.heading cut h.fits heading
  -- The call that opened the window brings a part of the transfer too.
  have opener : win.headD ⟨(r.run w pre).now, d, part⟩ ∈ win ++ [⟨(r.run w pre).now, d, part⟩] := by
    cases win with
    | nil => exact List.mem_cons_self
    | cons first win => exact List.mem_cons_self
  obtain ⟨owned, taken⟩ := new _ opener
  obtain ⟨j, _, _, opening⟩ := cut.part_of_owns h.fits owned taken
  refine ⟨latest.delivery, ?_, ?_⟩
  · have first := new.latestFirst?_eq cut h.fits heading
    rwa [List.map_append] at first
  · rw [answer, owned.1, owned.2.1, opening, partAt, Part.messageId_ofPieces, count, type, time,
      new.payload_eq cut h.fits complete]

/-- No part of the transfer is refused, whether or not the message has been given before. -/
theorem handle_accepts (h : m.Carries r w ops) (eq : ops = pre ++ .deliver d :: post)
    (own : m.Owns d) :
    ∃ progress t, r.handle (r.run w pre).now (r.run w pre).state d = (.ok progress, t) := by
  have hd : .deliver d ∈ ops := eq ▸ List.mem_append_right _ List.mem_cons_self
  obtain ⟨pieces, cut⟩ := m.exists_isCut
  obtain ⟨i, _, below, checked⟩ := cut.check_of_owns h.fits own
  obtain ⟨tracks, fills, young⟩ := h.window_facts hd own eq
  have live := h.live_window hd own eq
  have admits := fills.admits cut h.fits below
  -- After the message has been given the window is a new one, which may fill up again or not.
  by_cases complete : Window.IsComplete (r.window m.key (r.history w pre) ++
      [⟨(r.run w pre).now, d, m.partAt pieces i⟩])
  · obtain ⟨latest, _, answer⟩ := h.handle_complete eq own checked complete
    exact ⟨_, _, answer⟩
  · have written := Integer.isWritable_of_between h.began h.written (r.now_le_run w pre)
      (now_le r w eq)
    rw [← live] at admits complete
    obtain ⟨t, answer⟩ := tracks.handle_pending (own.1 ▸ h.sender) checked admits complete written
      fun call hc => (young call hc).2
    exact ⟨_, t, answer⟩

/-- Until nothing is missing, the window holds what has arrived, in order. -/
theorem gathered (h : m.Carries r w ops) (hd₀ : .deliver d₀ ∈ ops) (own₀ : m.Owns d₀)
    (eq : ops = pre ++ post) (missing : m.IsMissing pre) :
    (r.window m.key (r.history w pre)).map Call.delivery = m.arrived pre := by
  -- The induction takes the last operation away: the window before it is known, and a part that
  -- leaves something missing is added to it.
  induction pre using List.reverseRecOn generalizing post with
  | nil => rfl
  | append_singleton pre op ih =>
    have eq' : ops = pre ++ op :: post := by simp [eq]
    have before := ih eq' missing.of_append
    have live := h.live_window hd₀ own₀ eq'
    rw [Reassembler.window_append, arrived_append]
    cases op with
    | advance ms => exact before.trans (List.append_nil _).symm
    | prune =>
      show (Window.live _ _ _).map _ = _
      rw [live]
      exact before.trans (List.append_nil _).symm
    | deliver d =>
      have hd : .deliver d ∈ ops := eq' ▸ List.mem_append_right _ List.mem_cons_self
      obtain ⟨pieces, cut⟩ := m.exists_isCut
      by_cases own : m.Owns d
      · obtain ⟨i, _, _, checked⟩ := cut.check_of_owns h.fits own
        obtain ⟨t, answer⟩ := h.handle_pending eq' own before missing
        have after : (r.step (r.run w pre) (.deliver d)).1 = .handled (.ok .pending) := by
          show Answer.handled (r.handle _ _ d).1 = _
          rw [answer]
        rw [after, arrived_deliver own, ← before]
        simp only [Reassembler.after, checked, if_true, live, List.map_append, List.map_cons,
          List.map_nil]
      · rw [arrived_other own, List.append_nil, ← before]
        cases checked : r.check d with
        | error e => simp only [Reassembler.after, checked]
        | ok result =>
          obtain ⟨part, k⟩ := result
          have other : k ≠ m.key := by
            rintro rfl
            exact own (h.owns_of_check hd₀ own₀ hd checked)
          simp only [Reassembler.after, checked, if_neg other, live]

/-! ## The message comes back -/

/-- Whatever the order and however often: parts of the transfer are taken in, the last one that was
missing gives the message and leaves no slot behind, and there is such a one if all arrive. -/
theorem gives_message (h : m.Carries r w ops) :
    (∀ pre d post, ops = pre ++ .deliver d :: post → m.Owns d →
      (∃ progress, (r.handle (r.run w pre).now (r.run w pre).state d).1 = .ok progress) ∧
      (m.IsMissing (pre ++ [.deliver d]) →
        (r.handle (r.run w pre).now (r.run w pre).state d).1 = .ok .pending) ∧
      (m.IsMissing pre → ¬ m.IsMissing (pre ++ [.deliver d]) →
        (∃ latest, m.latestFirst? (m.arrived (pre ++ [.deliver d])) = some latest ∧
          (r.handle (r.run w pre).now (r.run w pre).state d).1
            = .ok (.complete m.message latest.residue)) ∧
        r.Lacks (r.handle (r.run w pre).now (r.run w pre).state d).2 m.key)) ∧
    (¬ m.IsMissing ops → ∃ pre d post, ops = pre ++ .deliver d :: post ∧ m.Owns d ∧
      m.IsMissing pre ∧ ¬ m.IsMissing (pre ++ [.deliver d])) := by
  constructor
  · intro pre d post eq own
    have hd : .deliver d ∈ ops := eq ▸ List.mem_append_right _ List.mem_cons_self
    refine ⟨?_, fun missing => ?_, fun before after => ?_⟩
    · obtain ⟨progress, t, answer⟩ := h.handle_accepts eq own
      exact ⟨progress, by rw [answer]⟩
    · obtain ⟨t, answer⟩ :=
        h.handle_pending eq own (h.gathered hd own eq missing.of_append) missing
      rw [answer]
    · obtain ⟨pieces, cut⟩ := m.exists_isCut
      obtain ⟨i, _, _, checked⟩ := cut.check_of_owns h.fits own
      have gathered := h.gathered hd own eq before
      have complete := (h.isComplete_append_iff eq own cut checked gathered).mpr after
      obtain ⟨latest, first, answer⟩ := h.handle_complete eq own checked complete
      rw [gathered, ← arrived_deliver own, ← arrived_append] at first
      rw [answer]
      exact ⟨⟨latest, first, rfl⟩, Reassembler.lacks_delete ..⟩
  · intro covered
    obtain ⟨pieces, cut⟩ := m.exists_isCut
    have start : m.IsMissing [] := by
      have inside : 0 < m.parts.length := cut.count.symm ▸ cut.bounds.1
      exact ⟨_, List.getElem_mem inside, fun d none => nomatch none⟩
    exact exists_last_missing start covered

end Carries

/-! ### Two parts in reverse order -/

/-- A message of two bytes, cut at a size that leaves room for one byte in its first part. -/
def pair : Transfer where
  memory := .gigabyte
  message :=
    { sender := Reassembler.straggler.sender
      payload := [65, 66]
      messageType := 5
      timestampNs := 7
      messageId := 9
      fingerprint := [] }
  size := 22
  parts :=
    [[0, 0, 0, 9, 0, 0, 1, 2, 0, 0, 0, 5, 0, 0, 0, 0, 0, 0, 0, 7, 65, 0],
     [0, 0, 0, 9, 1, 0, 1, 66, 0, 0, 0, 0, 0, 0, 0, 0, 0, 0, 0, 0, 0, 0]]
  split := rfl
  key := Reassembler.stragglerKey
  derived := rfl

def firstOfPair : Delivery where
  sender := pair.message.sender
  contents := pair.parts[0]
  residue := some [1]

def secondOfPair : Delivery where
  sender := pair.message.sender
  contents := pair.parts[1]

/-- No part at all. -/
def noise : Delivery where
  sender := pair.message.sender
  contents := []

def beforeFirst : List Operation := [.deliver secondOfPair, .deliver noise, .advance 5, .prune]

theorem deliveries_pair :
    deliveries (beforeFirst ++ [.deliver firstOfPair]) = [secondOfPair, noise, firstOfPair] := rfl

theorem carries_pair :
    pair.Carries Reassembler.narrow ⟨0, {}⟩ (beforeFirst ++ [.deliver firstOfPair]) where
  sender := rfl
  fits := by decide
  lacks := Reassembler.lacks_empty _ _
  only := by
    intro d hd
    rw [← mem_deliveries_iff, deliveries_pair, List.mem_cons, List.mem_cons, List.mem_singleton]
      at hd
    rcases hd with rfl | rfl | rfl
    · exact .inl (by decide)
    · exact .inr ⟨by decide, fun part parsed => nomatch parsed⟩
    · exact .inl (by decide)
  separates := by
    have one : ∀ d ∈ [secondOfPair, noise, firstOfPair], ∀ m, d.material? = some m →
        m = pair.message.sender.raw ++ [0, 0, 0, 0] ++ [] ++ [0, 0, 0, 9] := by
      intro d hd
      rw [List.mem_cons, List.mem_cons, List.mem_singleton] at hd
      rcases hd with rfl | rfl | rfl
      · exact fun m hm => (Option.some.inj hm).symm
      · exact fun m hm => nomatch hm
      · exact fun m hm => (Option.some.inj hm).symm
    rw [deliveries_pair]
    intro d hd d' hd' m m' hm hm' _
    rw [one d hd m hm, one d' hd' m' hm']
  began := Integer.isWritable_of_lt (Int.le_refl 0) (by decide)
  written := Integer.isWritable_of_lt (n := 5) (by decide) (by decide)
  timely := by
    intro event happened d _ _
    obtain ⟨_, after, _⟩ := Reassembler.mem_history _ _ happened
    show (5 : Int) < event.now + 1000
    have start : 0 ≤ event.now := after
    omega

theorem gives_message_pair :
    (Reassembler.narrow.handle 5 (Reassembler.narrow.run ⟨0, {}⟩ beforeFirst).state firstOfPair).1
      = .ok (.complete pair.message (some [1])) := by
  have last := (Carries.gives_message carries_pair).1 beforeFirst firstOfPair [] rfl (by decide)
  obtain ⟨⟨latest, first, answer⟩, _⟩ := last.2.2 (by decide) (by decide)
  cases first
  exact answer

/-- Parts of the pair are lost where the fingerprint is too long, and where the time is a number of
too many digits. -/
theorem pair_lost :
    pair.message.sender.IsValid ∧ pair.size ≤ Reassembler.narrow.maxFragmentSize ∧
      (∀ d, d.sender = pair.message.sender → d.contents ∈ pair.parts →
        d.fingerprint = some longFingerprint →
        (Reassembler.narrow.handle 0 {} d).1 = .error (.key .tooBig)) ∧
      pair.Owns firstOfPair ∧
      (Reassembler.narrow.handle Integer.unwritable {} firstOfPair).1
        = .error (.number .tooLong) := by
  have fits : pair.size ≤ Reassembler.narrow.maxFragmentSize := by decide
  have own : pair.Owns firstOfPair := by decide
  have valid : firstOfPair.sender.IsValid := rfl
  refine ⟨valid, fits, fun d _ among given => ?_, own, ?_⟩
  · have long : 0x100000000 ≤ (d.fingerprint.getD []).length := by
      rw [given]
      exact Nat.le_of_eq length_longFingerprint.symm
    rw [Reassembler.handle_of_long pair.split fits among long]
  · obtain ⟨pieces, cut⟩ := pair.exists_isCut
    obtain ⟨i, _, below, checked⟩ := cut.check_of_owns fits own
    have start : pair.Fills Reassembler.narrow [] := List.forall_mem_nil _
    have alone := start.append ⟨Integer.unwritable, firstOfPair, pair.partAt pieces i⟩ own checked
    have unfinished :
        ¬ Window.IsComplete [⟨Integer.unwritable, firstOfPair, pair.partAt pieces i⟩] := by
      intro complete
      obtain ⟨call, hc, same⟩ :=
        (alone.isComplete_iff cut fits).mp complete secondOfPair.contents (by decide)
      cases List.mem_singleton.mp hc
      have other : firstOfPair.contents ≠ secondOfPair.contents := by decide
      exact other same
    have empty : Reassembler.narrow.Tracks {} pair.key [] :=
      .nothing (Reassembler.lacks_empty _ _)
    obtain ⟨e, answer⟩ := empty.handle_unwritable valid checked (start.admits cut fits below)
      unfinished Integer.isWritable_unwritable
    cases e
    rw [answer]

end Transfer

end PartRelay.Reassembly
