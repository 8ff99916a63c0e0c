import PartRelay.Fragment
import PartRelay.Proofs.Results
import PartRelay.Proofs.Sender

/-!
# Fragments of requests

What the object of a request has to say for it to give a fragment, and what that fragment is then.
-/

namespace PartRelay

theorem Sender.parse_eq_ok_iff {o : Option Text} {s : Sender} :
    Sender.parse o = .ok s ↔
      ∃ t bs, o = some t ∧ t ≠ [] ∧ Base64.readStrict t = .ok bs ∧ unmarshal bs = .ok s := by
  unfold Sender.parse
  split
  · simp
  · simp
  next t some =>
    constructor
    · intro h
      split at h
      · cases h
      next bs read => exact ⟨t, bs, rfl, some, read, mapError_eq_ok.mp h⟩
    · rintro ⟨_, bs, ⟨⟩, _, read, named⟩
      rw [read]
      exact mapError_eq_ok.mpr named

theorem Sender.isValid_of_parse {t : Option Text} {s : Sender} (h : Sender.parse t = .ok s) :
    s.IsValid := by
  obtain ⟨_, _, _, _, _, named⟩ := parse_eq_ok_iff.mp h
  exact isValid_of_unmarshal named

namespace Fragment

variable {j : Json} {f : Fragment}

/-- The fields that a fragment was read from. -/
structure Fields (j : Json) (f : Fragment) : Prop where
  sender : ∃ t, textField j "senderId" = .ok t ∧ Sender.parse t = .ok f.sender
  payload : ∃ t, textField j "payload" = .ok t ∧ payloadOf t = .ok f.payload
  fingerprint : ∃ t, textField j "relationshipFingerprint" = .ok t ∧
    fingerprintOf t = .ok f.fingerprint
  messageType : ∃ type, intField j "messageType" 0 0xFFFFFFFF = .ok type ∧
    f.messageType = type.getD defaultMessageType
  timestampNs :
    intField j "timestampNs" (-0x8000000000000000) 0x7FFFFFFFFFFFFFFF = .ok f.timestampNs

theorem ofObject_eq_ok (h : ofObject j = .ok f) : Fields j f := by
  rw [ofObject] at h
  obtain ⟨senderText, named, h⟩ := bind_eq_ok.mp h
  obtain ⟨sender, parsed, h⟩ := bind_eq_ok.mp h
  obtain ⟨payloadText, carried, h⟩ := bind_eq_ok.mp h
  obtain ⟨payload, decoded, h⟩ := bind_eq_ok.mp h
  obtain ⟨fingerprintText, given, h⟩ := bind_eq_ok.mp h
  obtain ⟨fingerprint, read, h⟩ := bind_eq_ok.mp h
  obtain ⟨type, typed, h⟩ := bind_eq_ok.mp h
  obtain ⟨time, timed, h⟩ := bind_eq_ok.mp h
  cases h
  exact ⟨⟨senderText, named, mapError_eq_ok.mp parsed⟩, ⟨payloadText, carried, decoded⟩,
    ⟨fingerprintText, given, read⟩, ⟨type, typed, rfl⟩, timed⟩

/-- Fields that can each be read give a fragment. -/
theorem ofObject_of_fields (h : Fields j f) : ofObject j = .ok f := by
  obtain ⟨senderText, named, parsed⟩ := h.sender
  obtain ⟨payloadText, carried, decoded⟩ := h.payload
  obtain ⟨fingerprintText, given, read⟩ := h.fingerprint
  obtain ⟨type, typed, same⟩ := h.messageType
  simp only [ofObject, named, parsed, carried, decoded, given, read, typed, h.timestampNs,
    mapError_ok, bind, Except.bind, pure, Except.pure, ← same]

theorem ofBody_eq_ok {body : Bytes} (h : ofBody body = .ok f) :
    ∃ t fields, Utf8.read body = .ok t ∧ Json.read t = .ok (.object fields) ∧
      Fields (.object fields) f := by
  rw [ofBody] at h
  split at h
  · cases h
  next t bytes =>
    split at h
    · cases h
    next fields value => exact ⟨t, fields, bytes, value, ofObject_eq_ok h⟩
    · cases h

/-- The sender of a fragment was taken from its bytes. -/
theorem isValid_of_ofBody {body : Bytes} (h : ofBody body = .ok f) : f.sender.IsValid := by
  obtain ⟨_, _, _, _, fields⟩ := ofBody_eq_ok h
  obtain ⟨t, _, parsed⟩ := fields.sender
  exact Sender.isValid_of_parse parsed

/-- A number of a field lies in the range of the field. -/
theorem intField_range {key : Text} {low high n : Int}
    (h : intField j key low high = .ok (some n)) : low ≤ n ∧ n ≤ high := by
  rw [intField] at h
  split at h
  · cases h
  · split at h
    next range =>
      cases h
      exact range
    next => cases h
  · cases h

theorem Fields.messageType_range (h : Fields j f) :
    0 ≤ f.messageType ∧ f.messageType ≤ 0xFFFFFFFF := by
  obtain ⟨type, read, eq⟩ := h.messageType
  cases type with
  | none =>
    rw [eq]
    decide
  | some n =>
    rw [eq]
    exact intField_range read

theorem Fields.timestampNs_range (h : Fields j f) {n : Int} (given : f.timestampNs = some n) :
    -0x8000000000000000 ≤ n ∧ n ≤ 0x7FFFFFFFFFFFFFFF :=
  intField_range (given ▸ h.timestampNs)

/-! ## Faults of a body -/

section Faults

variable {e : RequestError}

theorem status_of_textField {key : Text} (h : textField j key = .error e) : e.status = 400 := by
  rw [textField] at h
  split at h
  · cases h
  · cases h
  · cases h
    rfl

theorem status_of_intField {key : Text} {low high : Int} (h : intField j key low high = .error e) :
    e.status = 400 := by
  rw [intField] at h
  split at h
  · cases h
  · split at h
    · cases h
    · cases h
      rfl
  · cases h
    rfl

theorem status_of_payloadOf {t : Option Text} (h : payloadOf t = .error e) : e.status = 400 := by
  unfold payloadOf at h
  split at h
  · cases h
    rfl
  · obtain ⟨cause, _, rfl⟩ := mapError_eq_error.mp h
    rfl

theorem status_of_fingerprintOf {t : Option Text} (h : fingerprintOf t = .error e) :
    e.status = 400 := by
  unfold fingerprintOf at h
  split at h
  · cases h
  · cases h
  · obtain ⟨cause, _, rfl⟩ := mapError_eq_error.mp h
    rfl

theorem status_of_ofObject (h : ofObject j = .error e) : e.status = 400 := by
  -- Each field may be at fault, after the fields before it were read.
  rw [ofObject] at h
  obtain named | ⟨_, _, h⟩ := bind_eq_error.mp h
  · exact status_of_textField named
  obtain parsed | ⟨_, _, h⟩ := bind_eq_error.mp h
  · obtain ⟨cause, _, rfl⟩ := mapError_eq_error.mp parsed
    rfl
  obtain carried | ⟨_, _, h⟩ := bind_eq_error.mp h
  · exact status_of_textField carried
  obtain decoded | ⟨_, _, h⟩ := bind_eq_error.mp h
  · exact status_of_payloadOf decoded
  obtain given | ⟨_, _, h⟩ := bind_eq_error.mp h
  · exact status_of_textField given
  obtain read | ⟨_, _, h⟩ := bind_eq_error.mp h
  · exact status_of_fingerprintOf read
  obtain typed | ⟨_, _, h⟩ := bind_eq_error.mp h
  · exact status_of_intField typed
  obtain timed | ⟨_, _, h⟩ := bind_eq_error.mp h
  · exact status_of_intField timed
  cases h

/-- Whatever is wrong with a body, the method is not. -/
theorem status_of_ofBody {body : Bytes} (h : ofBody body = .error e) : e.status = 400 := by
  rw [ofBody] at h
  split at h
  · cases h
    rfl
  · split at h
    · cases h
      rfl
    · exact status_of_ofObject h
    · cases h
      rfl

end Faults

end Fragment

end PartRelay
