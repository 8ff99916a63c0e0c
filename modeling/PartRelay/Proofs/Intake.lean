import PartRelay.Intake
import PartRelay.Proofs.EventLog
import PartRelay.Proofs.Fragment
import PartRelay.Proofs.Reassembly.Answers

/-!
# Receipts and the log

What the intake makes of an answer of the reassembler. Logging is never in the way: the events of an
orderly answer can always be written, whatever the log holds already.
-/

namespace PartRelay

/-! ## Receipts -/

namespace Intake

open Reassembly (Message Progress Refusal Reassembler)

variable {r : Reassembler} {now : Int} {s : State} {f : Fragment}

/-- The fields of an event are plain numbers and texts: no log has too few levels for them. -/
theorem depth_le_of_mem_respond {ε : Type} (answer : Except (Rejection ε) Answer) (levels : Nat) :
    ∀ e ∈ (respond f answer).2, e.depth ≤ levels := by
  have flat : ∀ e ∈ (respond f answer).2, e.depth = 0 := by
    cases answer with
    | error e => cases e <;> simp [respond, rejected, failed, Event.depth, Json.fieldsDepth,
        Json.depth]
    | ok given =>
      obtain ⟨complete, message⟩ := given
      cases complete with
      | false => simp [respond, accepted, Event.depth, Json.fieldsDepth, Json.depth]
      | true => cases message <;> simp [respond, accepted, failed, completed, Event.depth,
          Json.fieldsDepth, Json.depth]
  intro e among
  exact flat e among ▸ Nat.zero_le levels

/-- With events that can be written the log has no say in the receipt. -/
theorem conclude_of_writable {ε : Type} (log : Option EventLog)
    (answer : Except (Rejection ε) Answer) (written : Integer.isWritable now = true)
    (h : ∀ e ∈ (respond f answer).2, e.IsWritable) :
    ∃ log', conclude log now f answer = ((respond f answer).1.mapError .rejected, log') := by
  rw [conclude]
  cases log with
  | none => exact ⟨none, rfl⟩
  | some log =>
    obtain ⟨log', appended⟩ :=
      log.appendAll_ok written h (depth_le_of_mem_respond answer log.levels)
    refine ⟨some log', ?_⟩
    simp only [appended]

/-- With an event that cannot be written there is no receipt. -/
theorem conclude_of_not_writes {ε : Type} {log : EventLog} (opened : log.closed = false)
    (answer : Except (Rejection ε) Answer) {e : Event} (among : e ∈ (respond f answer).2)
    (unwritten : log.writes now e = false) :
    (conclude (some log) now f answer).1 = .error (.unlogged (.number .tooLong)) := by
  have some : (respond f answer).2.all (log.writes now) = false :=
    List.all_eq_false.mpr ⟨e, among, Bool.not_eq_true _ ▸ unwritten⟩
  have appended := EventLog.appendAll_eq opened now (respond f answer).2
    (depth_le_of_mem_respond answer log.levels)
  rw [some] at appended
  rw [conclude]
  simp only [appended]
  rfl

/-- The receipt for a part that waits for others. -/
def waiting (f : Fragment) : Receipt where
  accepted := true
  completed := false
  messageType := f.messageType
  byteCount := f.payload.length

/-- The receipt for the part that completes a message: the payload is that of the message, and the
submission has its say in the type. -/
def completing (f : Fragment) (m : Message) : Receipt where
  accepted := true
  completed := true
  messageType := if f.messageType ≠ noMessageType then f.messageType else m.messageType
  byteCount := f.payload.length
  payload := some m.payload
  info := some (describe m)

/-- The receipt for a part that is accepted. -/
def receiptOf (f : Fragment) : Progress → Receipt
  | .pending => waiting f
  | .complete m _ => completing f m

theorem fieldsWritable_optionalField (key : Text) {value : Option Json}
    (h : ∀ j, value = some j → j.isWritable = true) :
    Json.fieldsWritable (optionalField key value) = true := by
  cases value with
  | none => rfl
  | some j => simp [optionalField, Json.fieldsWritable, h j rfl]

/-- A receipt can be sent when its two numbers can be written. -/
theorem isWritable_toJson {receipt : Receipt} (type : Integer.isWritable receipt.messageType = true)
    (bytes : Integer.isWritable receipt.byteCount = true) : receipt.toJson.isWritable = true := by
  have payload : ∀ j, (receipt.payload.map fun bs => Json.string (Base64.write bs)) = some j →
      j.isWritable = true := by
    intro j hj
    obtain ⟨bs, _, rfl⟩ := Option.map_eq_some_iff.mp hj
    rfl
  have info : ∀ j, receipt.infoJson = some j → j.isWritable = true := by
    intro j hj
    unfold Receipt.infoJson at hj
    split at hj
    · cases hj
    · cases hj
    · cases hj
      rfl
  simp [Receipt.toJson, Json.isWritable, Json.fieldsWritable_append, Json.fieldsWritable, type,
    bytes, fieldsWritable_optionalField _ payload, fieldsWritable_optionalField _ info]

/-- What the intake makes of an orderly answer. -/
inductive Concludes (f : Fragment) : Except Refusal Progress →
    Except (Failure Refusal) Receipt → Prop where
  | malformed (cause : Part.Error) :
      Concludes f (.error (.part cause)) (.error (.rejected (.malformed cause.message)))
  | conflict (cause : Reassembly.Conflict) :
      Concludes f (.error (.conflict cause)) (.error (.rejected (.conflict cause.message)))
  | unmeasured : Concludes f (.error (.key .tooBig)) (.error (.rejected (.other (.key .tooBig))))
  | accepted (progress : Progress) : Concludes f (.ok progress) (.ok (receiptOf f progress))

/-- The numbers that a submission may give a message. -/
structure HasWritableNumbers (f : Fragment) : Prop where
  messageType : Integer.isWritable f.messageType = true
  timestampNs : ∀ n, f.timestampNs = some n → Integer.isWritable n = true

theorem hasWritableNumbers_of_ofBody {body : Bytes} (h : Fragment.ofBody body = .ok f) :
    HasWritableNumbers f := by
  obtain ⟨_, _, _, _, fields⟩ := Fragment.ofBody_eq_ok h
  have word : Integer.isWritable (2 ^ 63) = true :=
    Integer.isWritable_of_lt (by decide) (by decide)
  have negative : Integer.isWritable (-2 ^ 63) = true := by
    rw [Integer.isWritable_iff] at word ⊢
    exact word
  constructor
  · obtain ⟨low, high⟩ := fields.messageType_range
    exact Integer.isWritable_of_lt low (by omega)
  · intro n given
    obtain ⟨low, high⟩ := fields.timestampNs_range given
    exact Integer.isWritable_of_between negative word low (by omega)

theorem isWritable_accepted (length : Integer.isWritable f.payload.length = true)
    (complete : Bool) : (accepted f complete).IsWritable := by
  simp [accepted, Event.IsWritable, Json.fieldsWritable, Json.isWritable, length]

theorem isWritable_type_withOverrides {m : Message} (type : Integer.isWritable m.messageType = true)
    (numbers : HasWritableNumbers f) :
    Integer.isWritable (withOverrides m f).messageType = true := by
  rw [withOverrides]
  split
  · exact numbers.messageType
  · exact type

theorem isWritable_time_withOverrides {m : Message} (time : Integer.isWritable m.timestampNs = true)
    (numbers : HasWritableNumbers f) :
    Integer.isWritable (withOverrides m f).timestampNs = true := by
  rw [withOverrides]
  cases given : f.timestampNs with
  | none => exact time
  | some n => exact numbers.timestampNs n given

/-- The type that a completed message is answered with. -/
theorem isWritable_completingType {m : Message} (h : m.IsBounded) (numbers : HasWritableNumbers f) :
    Integer.isWritable (completing f m).messageType = true := by
  obtain ⟨nonneg, bound⟩ := h.messageType
  have type : Integer.isWritable m.messageType = true :=
    Integer.isWritable_of_lt (n := m.messageType) nonneg (by omega)
  exact isWritable_type_withOverrides type numbers

/-- A completion can be told when the numbers of its message can be written. -/
theorem isWritable_completed_of_numbers {m : Message}
    (id : Integer.isWritable m.messageId = true) (type : Integer.isWritable m.messageType = true)
    (time : Integer.isWritable m.timestampNs = true)
    (bytes : Integer.isWritable m.payload.length = true) : (completed f m).IsWritable := by
  simp [completed, Event.IsWritable, Json.fieldsWritable, Json.isWritable, id, type, time, bytes]

theorem isWritable_completed {m : Message} (h : m.IsBounded) (numbers : HasWritableNumbers f) :
    (completed f (withOverrides m f)).IsWritable := by
  have type : Integer.isWritable (withOverrides m f).messageType = true :=
    isWritable_completingType h numbers
  obtain ⟨id, _, time, payload⟩ := h
  refine isWritable_completed_of_numbers ?_ type ?_ ?_
  · exact Integer.isWritable_of_lt (n := m.messageId) id.1 (by omega)
  · exact isWritable_time_withOverrides (Integer.isWritable_of_lt time.1 time.2) numbers
  · exact Integer.isWritable_of_lt (n := m.payload.length) (Int.natCast_nonneg _) (by omega)

section Orderly

variable {outcome : Except Refusal Progress}

theorem concludes_respond (orderly : Reassembler.IsOrderly (deliveryOf f) outcome) :
    Concludes f outcome ((respond f (answerOf outcome)).1.mapError .rejected) := by
  cases orderly with
  | malformed cause => exact .malformed cause
  | conflict cause => exact .conflict cause
  | unmeasured long => exact .unmeasured
  | pending => exact .accepted .pending
  | complete m residue bounded => exact .accepted (.complete m residue)

/-- The receipt for a part that gets an orderly answer can be sent. -/
theorem isWritable_receiptOf {progress : Progress}
    (orderly : Reassembler.IsOrderly (deliveryOf f) (.ok progress))
    (length : Integer.isWritable f.payload.length = true) (numbers : HasWritableNumbers f) :
    (receiptOf f progress).toJson.isWritable = true := by
  cases orderly with
  | pending => exact isWritable_toJson numbers.messageType length
  | complete m residue bounded =>
    exact isWritable_toJson (isWritable_completingType bounded numbers) length

/-- The events of an orderly answer can be written. Only what is accepted has its length told. -/
theorem isWritable_respond (orderly : Reassembler.IsOrderly (deliveryOf f) outcome)
    (length : ∀ progress, outcome = .ok progress → Integer.isWritable f.payload.length = true)
    (numbers : HasWritableNumbers f) :
    ∀ e ∈ (respond f (answerOf outcome)).2, e.IsWritable := by
  intro e he
  cases orderly with
  | malformed cause =>
    cases List.mem_singleton.mp he
    rfl
  | conflict cause =>
    cases List.mem_singleton.mp he
    rfl
  | unmeasured long => cases he
  | pending =>
    cases List.mem_singleton.mp he
    exact isWritable_accepted (length _ rfl) false
  | complete m residue bounded =>
    rcases List.mem_cons.mp he with rfl | last
    · exact isWritable_accepted (length _ rfl) true
    · cases List.mem_singleton.mp last
      exact isWritable_completed bounded numbers

end Orderly

/-- What is accepted is no longer than a fragment may be. -/
theorem length_of_accepted {d : Reassembly.Delivery} {b : Reassembly.State} {progress : Progress}
    (h : (r.handle now b d).1 = .ok progress) : d.contents.length ≤ r.maxFragmentSize := by
  cases checked : r.check d with
  | error e =>
    rw [Reassembler.handle_of_check_error checked] at h
    cases h
  | ok result => exact Reassembler.length_of_check checked

theorem isWritable_length {b : Reassembly.State} {progress : Progress}
    (size : Integer.isWritable r.maxFragmentSize = true)
    (h : (r.handle now b (deliveryOf f)).1 = .ok progress) :
    Integer.isWritable f.payload.length = true := by
  have zero : Integer.isWritable 0 = true := Integer.isWritable_of_lt (Int.le_refl 0) (by decide)
  exact Integer.isWritable_of_between zero size (Int.natCast_nonneg _) (length_of_accepted h)

theorem handle_eq (r : Reassembler) (now : Int) (s : State) (f : Fragment) :
    handle r now s f =
      ((conclude s.log now f (answerOf (r.handle now s.buffers (deliveryOf f)).1)).1,
        { buffers := (r.handle now s.buffers (deliveryOf f)).2
          log := (conclude s.log now f (answerOf (r.handle now s.buffers (deliveryOf f)).1)).2 }) :=
  rfl

/-- A fragment with an orderly answer is concluded as that answer is, whatever the log holds. -/
theorem handle_concludes (orderly : Reassembler.IsOrderly (deliveryOf f)
      (r.handle now s.buffers (deliveryOf f)).1)
    (size : Integer.isWritable r.maxFragmentSize = true) (written : Integer.isWritable now = true)
    (numbers : HasWritableNumbers f) :
    ∃ receipt log, handle r now s f
        = (receipt, ⟨(r.handle now s.buffers (deliveryOf f)).2, log⟩) ∧
      Concludes f (r.handle now s.buffers (deliveryOf f)).1 receipt := by
  obtain ⟨log, eq⟩ := conclude_of_writable s.log
    (answerOf (r.handle now s.buffers (deliveryOf f)).1) written
    (isWritable_respond orderly (fun _ => isWritable_length size) numbers)
  refine ⟨_, log, ?_, concludes_respond orderly⟩
  rw [handle_eq, eq]

end Intake

end PartRelay
