import PartRelay.Proofs.Bytes.BigEndian
import PartRelay.Proofs.Bytes.HexText
import PartRelay.Proofs.Reassembly.Slots
import PartRelay.Proofs.Results
import PartRelay.Proofs.Sender

/-!
# Keys tell conversations apart

What a key is the hash of determines sender, fingerprint and message id. As far as the hash does not
collide, so does the key.
-/

namespace PartRelay.Reassembly

theorem fourBytes_eq_ok {n : Int} {bs : Bytes} (h : fourBytes n = .ok bs) :
    (0 ≤ n ∧ n < 0x100000000) ∧ bs = Bytes.ofNat 4 n.toNat := by
  rw [fourBytes] at h
  split at h
  · cases h
  split at h
  · cases h
  cases h
  exact ⟨by omega, rfl⟩

theorem keyMaterial_eq_ok {sender : Sender} {fingerprint : Bytes} {messageId : Int} {bs : Bytes}
    (h : keyMaterial sender fingerprint messageId = .ok bs) :
    fingerprint.length < 0x100000000 ∧ (0 ≤ messageId ∧ messageId < 0x100000000) ∧
      bs = sender.raw ++ (Bytes.ofNat 4 fingerprint.length ++
        (fingerprint ++ Bytes.ofNat 4 messageId.toNat)) := by
  rw [keyMaterial] at h
  split at h
  · cases h
  next length measured =>
    split at h
    · cases h
    next id numbered =>
      cases h
      obtain ⟨bound, rfl⟩ := fourBytes_eq_ok measured
      obtain ⟨range, rfl⟩ := fourBytes_eq_ok numbered
      exact ⟨by omega, range, by simp⟩

/-- Every part has a key unless its fingerprint is too long to be measured in four bytes. -/
theorem keyMaterial_ok (sender : Sender) {fingerprint : Bytes} {messageId : Int}
    (length : fingerprint.length < 0x100000000) (id : 0 ≤ messageId ∧ messageId < 0x100000000) :
    ∃ bs, keyMaterial sender fingerprint messageId = .ok bs := by
  rw [keyMaterial, fourBytes, if_neg (by omega), if_neg (by omega), fourBytes, if_neg (by omega),
    if_neg (by omega)]
  exact ⟨_, rfl⟩

/-- Senders of one length cannot be mistaken for what follows them. -/
theorem keyMaterial_injective {sender sender' : Sender} {fingerprint fingerprint' : Bytes}
    {messageId messageId' : Int} {bs : Bytes} (lengths : sender.raw.length = sender'.raw.length)
    (h : keyMaterial sender fingerprint messageId = .ok bs)
    (h' : keyMaterial sender' fingerprint' messageId' = .ok bs) :
    sender = sender' ∧ fingerprint = fingerprint' ∧ messageId = messageId' := by
  obtain ⟨length, id, eq⟩ := keyMaterial_eq_ok h
  obtain ⟨length', id', eq'⟩ := keyMaterial_eq_ok h'
  rw [eq] at eq'
  -- Each piece has a known length once the pieces before it are known to be equal.
  obtain ⟨raw, rest⟩ := List.append_inj eq' lengths
  obtain ⟨measure, rest⟩ := List.append_inj rest (by simp)
  obtain ⟨same, number⟩ :=
    List.append_inj rest (@Bytes.ofNat_injective 4 _ _ length length' measure)
  have bound : messageId.toNat < 0x100000000 := by omega
  have bound' : messageId'.toNat < 0x100000000 := by omega
  have ids := @Bytes.ofNat_injective 4 _ _ bound bound' number
  exact ⟨Sender.ext raw, same, by omega⟩

theorem conversationKey_eq_ok {sender : Sender} {fingerprint : Bytes} {messageId : Int} {key : Text}
    (h : conversationKey sender fingerprint messageId = .ok key) :
    ∃ bs, keyMaterial sender fingerprint messageId = .ok bs ∧ key = Hex.write (Sha256.hash bs) := by
  rw [conversationKey] at h
  obtain ⟨bs, material, rfl⟩ := map_eq_ok.mp h
  exact ⟨bs, material, rfl⟩

theorem conversationKey_of_long (sender : Sender) {fingerprint : Bytes} (messageId : Int)
    (length : 0x100000000 ≤ fingerprint.length) :
    conversationKey sender fingerprint messageId = .error .tooBig := by
  rw [conversationKey, keyMaterial, fourBytes, if_neg (by omega), if_pos (by omega)]
  rfl

theorem conversationKey_of_material {sender : Sender} {fingerprint : Bytes} {messageId : Int}
    {bs : Bytes} (h : keyMaterial sender fingerprint messageId = .ok bs) :
    conversationKey sender fingerprint messageId = .ok (Hex.write (Sha256.hash bs)) := by
  rw [conversationKey, h]
  rfl

/-! ## Fingerprints that are too long -/

/-- The shortest fingerprint of which four bytes do not hold the length. -/
def longFingerprint : Bytes := List.replicate 0x100000000 0

theorem length_longFingerprint : longFingerprint.length = 0x100000000 := by
  rw [longFingerprint, List.length_replicate]

/-- There is no key for such a fingerprint, so that a part passes the other checks in vain. -/
theorem Reassembler.check_of_long {r : Reassembler} {d : Delivery} {part : Part}
    (length : d.contents.length ≤ r.maxFragmentSize) (parsed : Part.parse d.contents = .ok part)
    (limit : part.index < Part.maxParts) (long : 0x100000000 ≤ (d.fingerprint.getD []).length) :
    r.check d = .error (.key .tooBig) := by
  rw [check, if_neg (Int.not_lt.mpr length), parsed]
  simp only [if_neg (Int.not_le.mpr limit), conversationKey_of_long _ _ long]

/-! ## Keys of deliveries -/

/-- What the key of a delivery is the hash of; none where nothing is parsed or nothing is hashed. -/
def Delivery.material? (d : Delivery) : Option Bytes :=
  match Part.parse d.contents with
  | .error _ => none
  | .ok part => (keyMaterial d.sender (d.fingerprint.getD []) part.messageId).toOption

/-- The hash does not collide on the keys of these deliveries. -/
def HashSeparates (deliveries : List Delivery) : Prop :=
  ∀ d ∈ deliveries, ∀ d' ∈ deliveries, ∀ m m', d.material? = some m → d'.material? = some m' →
    Sha256.hash m = Sha256.hash m' → m = m'

theorem Delivery.material?_eq_some {d : Delivery} {part : Part} {bs : Bytes}
    (parsed : Part.parse d.contents = .ok part)
    (h : keyMaterial d.sender (d.fingerprint.getD []) part.messageId = .ok bs) :
    d.material? = some bs := by
  rw [material?, parsed]
  simp only [h]
  rfl

variable {deliveries : List Delivery} {d d' : Delivery} {part part' : Part}

/-- Deliveries of one key are of one conversation. -/
theorem HashSeparates.same_conversation (h : HashSeparates deliveries) {r : Reassembler}
    {key : Text} (hd : d ∈ deliveries) (hd' : d' ∈ deliveries)
    (lengths : d.sender.raw.length = d'.sender.raw.length)
    (checked : r.check d = .ok (part, key)) (checked' : r.check d' = .ok (part', key)) :
    d.sender = d'.sender ∧ d.fingerprint.getD [] = d'.fingerprint.getD [] ∧
      part.messageId = part'.messageId := by
  obtain ⟨parsed, _, derived⟩ := Reassembler.check_eq_ok checked
  obtain ⟨parsed', _, derived'⟩ := Reassembler.check_eq_ok checked'
  obtain ⟨bs, material, eq⟩ := conversationKey_eq_ok derived
  obtain ⟨bs', material', eq'⟩ := conversationKey_eq_ok derived'
  have hashes : Sha256.hash bs = Sha256.hash bs' := Hex.write_injective (eq.symm.trans eq')
  have same := h d hd d' hd' bs bs' (Delivery.material?_eq_some parsed material)
    (Delivery.material?_eq_some parsed' material') hashes
  exact keyMaterial_injective lengths material (same ▸ material')

end PartRelay.Reassembly
