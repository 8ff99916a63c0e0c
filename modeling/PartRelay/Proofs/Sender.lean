import PartRelay.Sender

/-!
# Valid senders

An identity is valid when `unmarshal` takes its bytes; it is then what those bytes give.
-/

namespace PartRelay.Sender

variable {bs : Bytes} {s : Sender}

theorem unmarshal_raw (h : unmarshal bs = .ok s) : s.raw = bs := by
  rw [unmarshal] at h
  split at h
  · cases h
  split at h
  · cases h
  cases h
  rfl

/-- An identity that `unmarshal` gives back from its own bytes. -/
def IsValid (s : Sender) : Prop := unmarshal s.raw = .ok s

theorem isValid_of_unmarshal (h : unmarshal bs = .ok s) : s.IsValid := by
  rw [IsValid, unmarshal_raw h, h]

theorem IsValid.length_raw (h : s.IsValid) : s.raw.length = length := by
  rw [IsValid, unmarshal] at h
  split at h
  · cases h
  next same => exact Decidable.not_not.mp same

theorem IsValid.kindCode_le (h : s.IsValid) : s.kindCode ≤ 3 := by
  rw [IsValid, unmarshal] at h
  split at h
  · cases h
  split at h
  · cases h
  next known =>
    rw [Bool.not_eq_true, Option.isNone_eq_false_iff] at known
    exact SenderKind.ofCode?_isSome.mp known

end PartRelay.Sender
