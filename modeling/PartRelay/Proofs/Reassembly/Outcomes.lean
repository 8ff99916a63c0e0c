import PartRelay.Proofs.Reassembly.Keys
import PartRelay.Proofs.Reassembly.Tracking

/-!
# The history decides

Whatever came in before, the answer to a part follows from the window of its key and from nothing
else: what it is refused for, whether it is taken in, and the message that it completes.
-/

namespace PartRelay.Reassembly

/-! ## What a window says of the next part -/

namespace Window

/-- Another number of parts has been declared, or a part is there that the new one has no room
for. -/
def Conflicts (win : Window) (p : FirstPart) : Prop :=
  (∃ n, win.Declares n ∧ n ≠ p.numParts) ∨ ∃ index, win.Holds index ∧ p.numParts ≤ index

/-- A number of parts has been declared that the index is beyond. -/
def Exceeds (win : Window) (p : Continuation) : Prop := ∃ n, win.Declares n ∧ n ≤ p.index

/-- Whether nothing in the window speaks against the part. -/
def Accepts (win : Window) : Part → Prop
  | .first p => ¬ win.Conflicts p
  | .continuation p => ¬ win.Exceeds p

variable {win : Window} {call : Call}

theorem accepts_iff_admits {part : Part} : win.Accepts part ↔ win.Admits part := by
  cases part with
  | first p =>
    simp only [Accepts, Admits, Conflicts, not_or, not_exists, not_and, Int.not_le,
      Decidable.not_not]
  | continuation p => simp only [Accepts, Admits, Exceeds, not_exists, not_and, Int.not_le]

/-- The answer to a call, as far as the window before it decides it. -/
structure Decides (win : Window) (call : Call) (outcome : Except Refusal Progress) : Prop where
  conflict : (∃ cause, outcome = .error (.conflict cause)) ↔
    ∃ p, call.part = .first p ∧ win.Conflicts p
  outOfRange : (∃ cause, outcome = .error (.part cause)) ↔
    ∃ p, call.part = .continuation p ∧ win.Exceeds p
  accepted : (∃ progress, outcome = .ok progress) ↔ win.Accepts call.part
  completes : (∃ message residue, outcome = .ok (.complete message residue)) ↔
    win.Accepts call.part ∧ IsComplete (win ++ [call])
  message : ∀ message residue, outcome = .ok (.complete message residue) →
    ∃ latest p, heading? (win ++ [call]) = some (latest, p) ∧ residue = latest.delivery.residue ∧
      message =
        { sender := call.delivery.sender
          payload := payload (win ++ [call]) p.numParts
          messageType := p.messageType
          timestampNs := p.timestampNs
          messageId := call.part.messageId
          fingerprint := call.delivery.fingerprint.getD [] }

theorem decides_misfit {e : Refusal} (refused : ¬ win.Accepts call.part)
    (misfit : Reassembler.IsMisfit e call.part) : win.Decides call (.error e) where
  conflict := by
    cases part : call.part with
    | first p =>
      rw [part] at misfit refused
      obtain ⟨conflict, rfl⟩ := misfit
      have against : win.Conflicts p := Classical.not_not.mp refused
      simp [against]
    | continuation p =>
      rw [part] at misfit
      obtain ⟨shown, rfl⟩ := misfit
      simp
  outOfRange := by
    cases part : call.part with
    | first p =>
      rw [part] at misfit
      obtain ⟨conflict, rfl⟩ := misfit
      simp
    | continuation p =>
      rw [part] at misfit refused
      obtain ⟨shown, rfl⟩ := misfit
      have against : win.Exceeds p := Classical.not_not.mp refused
      simp [against]
  accepted := by simp [refused]
  completes := by simp [refused]
  message := by simp

/-- What is accepted is refused for neither reason. -/
theorem Accepts.not_refused (h : win.Accepts call.part) :
    (¬ ∃ p, call.part = .first p ∧ win.Conflicts p) ∧
      ¬ ∃ p, call.part = .continuation p ∧ win.Exceeds p := by
  constructor
  · rintro ⟨p, part, against⟩
    rw [part] at h
    exact h against
  · rintro ⟨p, part, against⟩
    rw [part] at h
    exact h against

theorem decides_pending (accepts : win.Accepts call.part)
    (unfinished : ¬ IsComplete (win ++ [call])) : win.Decides call (.ok .pending) where
  conflict := by simp [accepts.not_refused.1]
  outOfRange := by simp [accepts.not_refused.2]
  accepted := by simp [accepts]
  completes := by simp [unfinished]
  message := by simp

theorem decides_complete {latest : Call} {p : FirstPart} (accepts : win.Accepts call.part)
    (complete : IsComplete (win ++ [call]))
    (heading : heading? (win ++ [call]) = some (latest, p)) :
    win.Decides call (.ok (.complete
      { sender := call.delivery.sender
        payload := payload (win ++ [call]) p.numParts
        messageType := p.messageType
        timestampNs := p.timestampNs
        messageId := call.part.messageId
        fingerprint := call.delivery.fingerprint.getD [] }
      latest.delivery.residue)) where
  conflict := by simp [accepts.not_refused.1]
  outOfRange := by simp [accepts.not_refused.2]
  accepted := by simp [accepts]
  completes := by simp [accepts, complete]
  message := by
    intro message residue same
    cases same
    exact ⟨latest, p, heading, rfl, rfl⟩

end Window

namespace Reassembler

variable {r : Reassembler} {now : Int} {s : State} {key : Text} {win : Window} {d : Delivery}
  {part : Part}

/-- A slot that follows a window answers as the window decides, if all of the window is of the
conversation of the part. -/
theorem Tracks.decides (h : Tracks r s key win) (valid : d.sender.IsValid)
    (checked : r.check d = .ok (part, key)) (written : Integer.isWritable now = true)
    (created : ∀ call ∈ win, Integer.isWritable call.now = true)
    (same : ∀ call ∈ win, call.delivery.sender = d.sender ∧
      call.delivery.fingerprint.getD [] = d.fingerprint.getD [] ∧
      call.part.messageId = part.messageId) :
    (win.live r.ttlMs now).Decides ⟨now, d, part⟩ (r.handle now s d).1 := by
  by_cases accepts : (win.live r.ttlMs now).Accepts part
  · have admits := Window.accepts_iff_admits.mp accepts
    by_cases complete : Window.IsComplete (win.live r.ttlMs now ++ [⟨now, d, part⟩])
    · obtain ⟨latest, p, heading, eq⟩ := h.handle_complete valid checked admits complete
      -- The message names the sender of the call that opened the window, which is this one's.
      have opener : ((win.live r.ttlMs now).headD ⟨now, d, part⟩).delivery.sender = d.sender ∧
          ((win.live r.ttlMs now).headD ⟨now, d, part⟩).delivery.fingerprint.getD []
            = d.fingerprint.getD [] ∧
          ((win.live r.ttlMs now).headD ⟨now, d, part⟩).part.messageId = part.messageId := by
        cases left : win.live r.ttlMs now with
        | nil => exact ⟨rfl, rfl, rfl⟩
        | cons opener later =>
          exact same opener (mem_of_mem_live (left ▸ List.mem_cons_self))
      obtain ⟨sender, fingerprint, messageId⟩ := opener
      rw [eq, sender, fingerprint, messageId]
      exact Window.decides_complete accepts complete heading
    · obtain ⟨t, eq⟩ := h.handle_pending valid checked admits complete written created
      rw [eq]
      exact Window.decides_pending accepts complete
  · obtain ⟨e, eq, misfit⟩ :=
      h.handle_refused valid checked (mt Window.accepts_iff_admits.mpr accepts)
    rw [eq]
    exact Window.decides_misfit accepts misfit

/-- In every run from the empty store a part that the checks on its bytes let pass is answered as
the window of its key decides. Only a fingerprint that four bytes cannot measure gives no key. -/
theorem window_decides {start : Int} {ops : List Operation}
    (valid : ∀ op ∈ ops ++ [.deliver d], op.HasValidSender)
    (separates : HashSeparates (deliveries (ops ++ [.deliver d])))
    (began : Integer.isWritable start = true)
    (written : Integer.isWritable (r.run ⟨start, {}⟩ ops).now = true)
    (length : d.contents.length ≤ r.maxFragmentSize) (parsed : Part.parse d.contents = .ok part)
    (limit : part.index < Part.maxParts) :
    (0x100000000 ≤ (d.fingerprint.getD []).length ∧
      r.handle (r.run ⟨start, {}⟩ ops).now (r.run ⟨start, {}⟩ ops).state d
        = (.error (.key .tooBig), (r.run ⟨start, {}⟩ ops).state)) ∨
    ∃ key, conversationKey d.sender (d.fingerprint.getD []) part.messageId = .ok key ∧
      ((r.window key (r.history ⟨start, {}⟩ ops)).live r.ttlMs (r.run ⟨start, {}⟩ ops).now).Decides
        ⟨(r.run ⟨start, {}⟩ ops).now, d, part⟩
        (r.handle (r.run ⟨start, {}⟩ ops).now (r.run ⟨start, {}⟩ ops).state d).1 := by
  have id := (Part.parse_inBounds parsed).messageId
  by_cases long : 0x100000000 ≤ (d.fingerprint.getD []).length
  · exact .inl ⟨long, handle_of_check_error (check_of_long length parsed limit long)⟩
  · obtain ⟨bs, material⟩ := keyMaterial_ok d.sender (Nat.not_le.mp long) id
    have derived := conversationKey_of_material material
    have checked := check_of_parts length parsed limit derived
    have delivered : d ∈ deliveries (ops ++ [.deliver d]) :=
      mem_deliveries_iff.mpr (List.mem_append_right _ List.mem_cons_self)
    have sender : d.sender.IsValid := valid _ (List.mem_append_right _ List.mem_cons_self)
    refine .inr ⟨_, derived, Tracks.decides ?_ sender checked written ?_ ?_⟩
    · exact tracks_window (lacks_empty r _) fun _ _ done _ => valid _ (List.mem_append_left _ done)
    · intro call hc
      obtain ⟨_, after, before, _⟩ := mem_window hc
      exact Integer.isWritable_of_between began written after before
    · intro call hc
      obtain ⟨done, _, _, taken⟩ := mem_window hc
      have other : call.delivery.sender.IsValid := valid _ (List.mem_append_left _ done)
      refine separates.same_conversation (mem_deliveries_iff.mpr (List.mem_append_left _ done))
        delivered ?_ taken checked
      rw [other.length_raw, sender.length_raw]

/-- The straggler, and time before it comes again. -/
def earlier : List Operation := [.deliver straggler, .advance 7]

theorem window_decides_straggler :
    (0x100000000 ≤ (straggler.fingerprint.getD []).length ∧
      narrow.handle 7 (narrow.run ⟨0, {}⟩ earlier).state straggler
        = (.error (.key .tooBig), (narrow.run ⟨0, {}⟩ earlier).state)) ∨
    ∃ key, conversationKey straggler.sender (straggler.fingerprint.getD []) 9 = .ok key ∧
      ((narrow.window key (narrow.history ⟨0, {}⟩ earlier)).live 1000 7).Decides
        ⟨7, straggler, .continuation ⟨9, 2, [65]⟩⟩
        (narrow.handle 7 (narrow.run ⟨0, {}⟩ earlier).state straggler).1 := by
  have valid : ∀ op ∈ earlier ++ [.deliver straggler], op.HasValidSender := by
    intro op ho
    simp only [earlier, List.cons_append, List.nil_append, List.mem_cons, List.not_mem_nil,
      or_false] at ho
    rcases ho with rfl | rfl | rfl
    · exact rfl
    · trivial
    · exact rfl
  have separates : HashSeparates (deliveries (earlier ++ [.deliver straggler])) := by
    have only : ∀ d ∈ [straggler, straggler], d = straggler := by
      intro d hd
      rw [List.mem_cons, List.mem_singleton, or_self] at hd
      exact hd
    intro d hd d' hd' m m' hm hm' _
    rw [only d hd] at hm
    rw [only d' hd', hm] at hm'
    exact Option.some.inj hm'
  have began : Integer.isWritable 0 = true := Integer.isWritable_of_lt (Int.le_refl 0) (by decide)
  have written : Integer.isWritable (narrow.run ⟨0, {}⟩ earlier).now = true :=
    Integer.isWritable_of_lt (n := 7) (by decide) (by decide)
  have parsed : Part.parse straggler.contents = .ok (.continuation ⟨9, 2, [65]⟩) := rfl
  have result := window_decides valid separates began written (by decide) parsed (by decide)
  have now : (narrow.run ⟨0, {}⟩ earlier).now = 7 := rfl
  rw [now] at result
  exact result

/-- The straggler with a fingerprint that is too long. -/
def unmeasured : Delivery := { straggler with fingerprint := some longFingerprint }

/-- The window of such a part would have it accepted, and yet it is not. -/
theorem window_overruled :
    unmeasured.sender.IsValid ∧ unmeasured.contents.length ≤ narrow.maxFragmentSize ∧
      Part.parse unmeasured.contents = .ok (.continuation ⟨9, 2, [65]⟩) ∧
      Part.index (.continuation ⟨9, 2, [65]⟩) < Part.maxParts ∧
      Window.Accepts [] (.continuation ⟨9, 2, [65]⟩) ∧
      (narrow.handle 0 {} unmeasured).1 = .error (.key .tooBig) := by
  have parsed : Part.parse unmeasured.contents = .ok (.continuation ⟨9, 2, [65]⟩) := rfl
  have accepts : Window.Accepts [] (.continuation ⟨9, 2, [65]⟩) := by
    rintro ⟨n, ⟨call, none, _⟩, _⟩
    cases none
  have long : 0x100000000 ≤ (unmeasured.fingerprint.getD []).length :=
    Nat.le_of_eq length_longFingerprint.symm
  refine ⟨rfl, by decide, parsed, by decide, accepts, ?_⟩
  rw [handle_of_check_error (check_of_long (by decide) parsed (by decide) long)]

end Reassembler

end PartRelay.Reassembly
