import PartRelay.Proofs.Reassembly.Keys

/-!
# Conversations keep apart

A conversation is known by sender, fingerprint and message id. Its buffer has a raw entry of its
own, as far as the hash does not collide. A part leaves alone every raw entry but that one and those
of the buffers that have expired, whatever the store holds and whoever put it there.
-/

namespace PartRelay.Reassembly

/-! ## Conversations -/

/-- What the parts of one message have in common. -/
structure Conversation where
  sender : Sender
  fingerprint : Option Bytes
  messageId : Int

namespace Conversation

/-- Whether two conversations are one; no fingerprint counts as an empty one. -/
structure Same (c c' : Conversation) : Prop where
  sender : c.sender = c'.sender
  fingerprint : c.fingerprint.getD [] = c'.fingerprint.getD []
  messageId : c.messageId = c'.messageId

/-- Whether each piece has the room that the key gives it. -/
structure Fits (c : Conversation) : Prop where
  sender : c.sender.raw.length = Sender.length
  fingerprint : (c.fingerprint.getD []).length < 0x100000000
  messageId : 0 ≤ c.messageId ∧ c.messageId < 0x100000000

/-- What the key is the hash of. -/
def material (c : Conversation) : Except KeyError Bytes :=
  keyMaterial c.sender (c.fingerprint.getD []) c.messageId

def key (c : Conversation) : Except KeyError Text :=
  conversationKey c.sender (c.fingerprint.getD []) c.messageId

variable {c c' : Conversation}

theorem Fits.material_ok (h : c.Fits) : ∃ bs, c.material = .ok bs :=
  keyMaterial_ok c.sender h.fingerprint h.messageId

/-- A conversation with a key has room for its fingerprint and its message id. -/
theorem fits_of_key {k : Text} (sender : c.sender.raw.length = Sender.length)
    (derived : c.key = .ok k) : c.Fits := by
  obtain ⟨bs, material, _⟩ := conversationKey_eq_ok derived
  obtain ⟨length, id, _⟩ := keyMaterial_eq_ok material
  exact ⟨sender, length, id⟩

theorem Same.material_eq (h : c.Same c') : c.material = c'.material := by
  rw [material, material, h.sender, h.fingerprint, h.messageId]

theorem Same.key_eq (h : c.Same c') : c.key = c'.key := by
  rw [key, key, h.sender, h.fingerprint, h.messageId]

theorem same_iff_material_eq (h : c.Fits) (h' : c'.Fits) :
    c.Same c' ↔ c.material = c'.material := by
  constructor
  · exact Same.material_eq
  · intro eq
    obtain ⟨bs, ok⟩ := h.material_ok
    obtain ⟨sender, fingerprint, id⟩ :=
      keyMaterial_injective (h.sender.trans h'.sender.symm) ok (eq ▸ ok)
    exact ⟨sender, fingerprint, id⟩

/-- The hash does not collide on what these two conversations are hashed from. -/
def Separated (c c' : Conversation) : Prop :=
  ∀ bs bs', c.material = .ok bs → c'.material = .ok bs' → Sha256.hash bs = Sha256.hash bs' →
    bs = bs'

theorem same_iff_key_eq (h : c.Fits) (h' : c'.Fits) (separated : c.Separated c') :
    c.Same c' ↔ c.key = c'.key := by
  constructor
  · exact Same.key_eq
  · intro eq
    obtain ⟨bs, material⟩ := h.material_ok
    obtain ⟨bs', material'⟩ := h'.material_ok
    rw [key, key, conversationKey_of_material material, conversationKey_of_material material',
      Except.ok.injEq] at eq
    rw [same_iff_material_eq h h', material, material',
      separated bs bs' material material' (Hex.write_injective eq)]

end Conversation

/-- The conversation that a delivery is of when this is its part. -/
def Delivery.conversation (d : Delivery) (part : Part) : Conversation :=
  ⟨d.sender, d.fingerprint, part.messageId⟩

namespace Reassembler

variable {r : Reassembler} {now : Int} {s s' : State} {d d' : Delivery} {part part' : Part}
  {key key' raw : Text}

/-- Two parts that the checks let pass have one place for their buffers exactly when they are of
one conversation. -/
theorem place_eq_iff (checked : r.check d = .ok (part, key))
    (checked' : r.check d' = .ok (part', key')) (sender : d.sender.raw.length = Sender.length)
    (sender' : d'.sender.raw.length = Sender.length)
    (separated : (d.conversation part).Separated (d'.conversation part')) :
    r.place key = r.place key' ↔ (d.conversation part).Same (d'.conversation part') := by
  obtain ⟨_, _, derived⟩ := check_eq_ok checked
  obtain ⟨_, _, derived'⟩ := check_eq_ok checked'
  have keyed : (d.conversation part).key = .ok key := derived
  have keyed' : (d'.conversation part').key = .ok key' := derived'
  rw [Conversation.same_iff_key_eq (Conversation.fits_of_key sender keyed)
    (Conversation.fits_of_key sender' keyed') separated, keyed, keyed', Except.ok.injEq]
  exact ⟨place_injective, congrArg r.place⟩

/-! ## What a part leaves alone -/

/-- Whether a part that comes in may change what is held under a key: its own, or one that has
expired. -/
def Touches (r : Reassembler) (now : Int) (s : State) (d : Delivery) (key : Text) : Prop :=
  (∃ part, r.check d = .ok (part, key)) ∨
    ∃ created, (key, created) ∈ s.active ∧ created ≤ now - r.ttlMs

theorem get?_store_prune (h : ∀ key ∈ r.stale now s, raw ≠ r.place key) :
    Table.get? (r.prune now s).store raw = Table.get? s.store raw := by
  rw [prune_eq]
  refine Table.get?_eraseAll_of_not_mem fun among => ?_
  obtain ⟨key, stale, eq⟩ := List.mem_map.mp among
  exact h key stale eq.symm

theorem get?_store_save {b : Buffer} (saved : r.save now s key b = .ok s')
    (ne : raw ≠ r.place key) :
    Table.get? s'.store raw = Table.get? s.store raw := by
  obtain ⟨data, store, _, written, rfl⟩ := save_eq_ok saved
  obtain ⟨bs, _, rfl⟩ := View.set_eq_ok written
  exact Table.get?_set_of_ne _ _ ne.symm

/-- A raw entry that is not touched stays as it is, whatever the answer. -/
theorem get?_store_handle (h : ∀ key, r.Touches now s d key → raw ≠ r.place key) :
    Table.get? (r.handle now s d).2.store raw = Table.get? s.store raw := by
  cases checked : r.check d with
  | error e => rw [handle_of_check_error checked]
  | ok result =>
    obtain ⟨part, key⟩ := result
    have own : raw ≠ r.place key := h key (.inl ⟨part, checked⟩)
    have pruned : Table.get? (r.prune now s).store raw = Table.get? s.store raw :=
      get?_store_prune fun k stale => h k (.inr (mem_stale_iff.mp stale))
    rcases handle_cases now s checked with ⟨e, eq⟩ | ⟨b, t, _, saved, eq⟩ | ⟨b, m, _, eq⟩
    · rw [eq, pruned]
    · rw [eq, get?_store_save saved own, pruned]
    · rw [eq, get?_store_delete, if_neg own.symm, pruned]

theorem get?_active_save {b : Buffer} (saved : r.save now s key' b = .ok s') (ne : key' ≠ key) :
    Table.get? s'.active key = Table.get? s.active key := by
  obtain ⟨data, store, _, _, rfl⟩ := save_eq_ok saved
  show Table.get? (if s.active.contains key' then s.active else s.active.set key' b.createdMs) key
    = _
  split
  · rfl
  · exact Table.get?_set_of_ne _ _ ne

/-- The index too keeps what it has for a key that is not touched. -/
theorem get?_active_handle (h : ¬ r.Touches now s d key) :
    Table.get? (r.handle now s d).2.active key = Table.get? s.active key := by
  cases checked : r.check d with
  | error e => rw [handle_of_check_error checked]
  | ok result =>
    obtain ⟨part, own⟩ := result
    have ne : own ≠ key := by
      rintro rfl
      exact h (.inl ⟨part, checked⟩)
    have pruned := get?_active_prune (mt (fun stale => .inr (mem_stale_iff.mp stale)) h)
    rcases handle_cases now s checked with ⟨e, eq⟩ | ⟨b, t, _, saved, eq⟩ | ⟨b, m, _, eq⟩
    · rw [eq, pruned]
    · rw [eq, get?_active_save saved ne, pruned]
    · rw [eq, ← pruned]
      exact (Table.get?_erase ..).trans (if_neg ne)

theorem mem_active_handle (h : ¬ r.Touches now s d key) (created : Int) :
    (key, created) ∈ (r.handle now s d).2.active ↔ (key, created) ∈ s.active := by
  cases checked : r.check d with
  | error e => rw [handle_of_check_error checked]
  | ok result =>
    obtain ⟨part, own⟩ := result
    have ne : own ≠ key := by
      rintro rfl
      exact h (.inl ⟨part, checked⟩)
    have young : key ∉ r.stale now s := mt (fun stale => .inr (mem_stale_iff.mp stale)) h
    rw [← (sameSlot_handle checked ne).opened, ← (sameSlot_prune young).opened]

/-! ## Apart -/

/-- What a key is the hash of tells conversations apart, and so, where the hash does not collide, do
the places of their buffers. A part changes nothing in the store but the entries that it touches,
none of which belongs to a view of another name, and nothing in the index but the keys that it
touches. -/
theorem conversations_apart {root : View} {maxFragmentSize ttlMs : Int}
    (made : create root maxFragmentSize ttlMs = .ok r) :
    (∀ c c' : Conversation, c.Fits → c'.Fits →
      ∃ bs bs', c.material = .ok bs ∧ c'.material = .ok bs' ∧ (bs = bs' ↔ c.Same c')) ∧
    (∀ d d' part part' key key', r.check d = .ok (part, key) → r.check d' = .ok (part', key') →
      d.sender.raw.length = Sender.length → d'.sender.raw.length = Sender.length →
      (d.conversation part).Separated (d'.conversation part') →
      (r.place key = r.place key' ↔ (d.conversation part).Same (d'.conversation part'))) ∧
    ∀ now s d,
      (∀ raw, (∀ key, r.Touches now s d key → raw ≠ r.place key) →
        Table.get? (r.handle now s d).2.store raw = Table.get? s.store raw) ∧
      (∀ name view key version, root.child name = .ok view → name ≠ viewName →
        Table.get? (r.handle now s d).2.store (view.rawKey key version)
          = Table.get? s.store (view.rawKey key version)) ∧
      (∀ key, ¬ r.Touches now s d key →
        Table.get? (r.handle now s d).2.active key = Table.get? s.active key ∧
        ∀ created, (key, created) ∈ (r.handle now s d).2.active ↔ (key, created) ∈ s.active) := by
  refine ⟨fun c c' fits fits' => ?_, fun d d' part part' key key' checked checked' => ?_,
    fun now s d => ⟨fun raw => get?_store_handle, fun name view key version child ne => ?_,
      fun key apart => ⟨get?_active_handle apart, mem_active_handle apart⟩⟩⟩
  · obtain ⟨bs, material⟩ := fits.material_ok
    obtain ⟨bs', material'⟩ := fits'.material_ok
    refine ⟨bs, bs', material, material', ?_⟩
    rw [Conversation.same_iff_material_eq fits fits', material, material', Except.ok.injEq]
  · exact place_eq_iff checked checked'
  · obtain ⟨own, _⟩ := create_eq_ok made
    exact get?_store_handle fun k _ => View.rawKey_ne_of_name_ne child own ne _ _ _ _

/-- The straggler with a fingerprint that is empty. -/
def blankStraggler : Delivery := { straggler with fingerprint := some [] }

/-- A store that other views use as well. -/
def sharedStore : State where
  store := [("settings/mode_v1", [0x31]), (narrow.place stragglerKey, [0x7B])]
  active := [(stragglerKey, 4500)]

theorem conversations_apart_straggler :
    (∃ key key', narrow.check straggler = .ok (.continuation ⟨9, 2, [65]⟩, key) ∧
      narrow.check blankStraggler = .ok (.continuation ⟨9, 2, [65]⟩, key') ∧
      narrow.place key = narrow.place key') ∧
    Table.get? (narrow.handle 5000 sharedStore straggler).2.store "settings/mode_v1"
      = some [0x31] := by
  have made : create View.shallow 64 1000 = .ok narrow := rfl
  obtain ⟨_, places, kept⟩ := conversations_apart made
  obtain ⟨_, others, _⟩ := kept 5000 sharedStore straggler
  have checked : narrow.check blankStraggler = .ok (.continuation ⟨9, 2, [65]⟩, stragglerKey) :=
    check_of_parts (by decide) rfl (by decide) rfl
  constructor
  · refine ⟨_, _, check_straggler, checked,
      (places _ _ _ _ _ _ check_straggler checked rfl rfl ?_).mpr ⟨rfl, rfl, rfl⟩⟩
    intro bs bs' material material' _
    exact Except.ok.inj (material.symm.trans material')
  · exact others "settings" { View.shallow with path := "settings/" } "mode" 1 rfl (by decide)

end Reassembler

end PartRelay.Reassembly
