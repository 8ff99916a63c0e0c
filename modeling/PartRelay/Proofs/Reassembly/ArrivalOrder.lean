import Mathlib.Data.List.Induction
import Mathlib.Data.List.Perm.Basic
import PartRelay.Proofs.Reassembly.CanonicalBuffer
import PartRelay.Proofs.Reassembly.Restarts

/-!
# Arrival order

Parts of one message that agree with one another come in at one time, into a state that knows
nothing of the message. In whatever order they come, the state afterwards is the same to the byte,
and so is what was answered: only the last part can complete the message.
-/

namespace PartRelay.Reassembly

/-! ## Parts that agree -/

/-- Parts of one message, each with an index of its own, and none with one that a first part among
them excludes. -/
structure IsCoherent (messageId : Int) (parts : List Part) : Prop where
  messageId : ∀ part ∈ parts, part.messageId = messageId
  indices : ∀ part ∈ parts, part.index < Part.maxParts
  distinct : (parts.map Part.index).Nodup
  agree : ∀ p, .first p ∈ parts → ∀ part ∈ parts, part.index < p.numParts

/-- Byte strings that are such parts, none of them longer than `size`. -/
structure IsBundle (size messageId : Int) (raws : List Bytes) (parts : List Part) : Prop where
  parsed : List.Forall₂ (fun raw part => Part.parse raw = .ok part) raws parts
  lengths : ∀ raw ∈ raws, (raw.length : Int) ≤ size
  coherent : IsCoherent messageId parts

section Bundle

variable {size messageId : Int} {raws raws' : List Bytes} {parts parts' done rest : List Part}
  {part : Part}

theorem IsCoherent.perm (h : IsCoherent messageId parts) (order : parts.Perm parts') :
    IsCoherent messageId parts' where
  messageId := fun part hp => h.messageId part (order.mem_iff.mpr hp)
  indices := fun part hp => h.indices part (order.mem_iff.mpr hp)
  distinct := (order.map Part.index).nodup_iff.mp h.distinct
  agree := fun p first part hp => h.agree p (order.mem_iff.mpr first) part (order.mem_iff.mpr hp)

/-- What is read of byte strings in another order are the same parts in another order. -/
theorem IsBundle.perm (h : IsBundle size messageId raws parts) (order : raws.Perm raws') :
    ∃ parts', parts.Perm parts' ∧ IsBundle size messageId raws' parts' := by
  obtain ⟨parts', parsed, shuffle⟩ := List.perm_comp_forall₂ order.symm h.parsed
  exact ⟨parts', shuffle.symm, parsed, fun raw hr => h.lengths raw (order.mem_iff.mpr hr),
    h.coherent.perm shuffle.symm⟩

/-- A part that is yet to come has an index that none has that came. -/
theorem IsCoherent.fresh (h : IsCoherent messageId (done ++ part :: rest)) :
    part.index ∉ done.map Part.index := by
  have distinct := h.distinct
  rw [List.map_append, List.map_cons, List.nodup_append] at distinct
  exact fun came => distinct.2.2 _ came _ List.mem_cons_self rfl

end Bundle

/-! ## Buffers of such parts -/

namespace Buffer

variable {b : Buffer} {residue : Option Bytes} {messageId : Int} {parts done rest : List Part}
  {part : Part}

/-- A buffer that nothing has come into. -/
structure IsEmpty (b : Buffer) : Prop where
  parts : b.parts = []
  numParts : b.numParts = .null

/-- The number of parts that a buffer knows is that of a first part that came into it. -/
theorem IsEmpty.first_of_numParts (h : b.IsEmpty) {n : Int}
    (count : (b.gathered residue parts).numParts = .int n) :
    ∃ p, .first p ∈ parts ∧ p.numParts = n := by
  induction parts using List.reverseRecOn with
  | nil =>
    rw [gathered, List.foldl_nil, h.numParts] at count
    cases count
  | append_singleton parts part ih =>
    rw [gathered_append] at count
    cases part with
    | first p =>
      cases count
      exact ⟨p, List.mem_append_right _ List.mem_cons_self, rfl⟩
    | continuation p =>
      obtain ⟨first, among, same⟩ := ih count
      exact ⟨first, List.mem_append_left _ among, same⟩

/-- Parts change nothing about whose buffer it is, and since when. -/
theorem gathered_whose (b : Buffer) (residue : Option Bytes) (parts : List Part) :
    (b.gathered residue parts).sender = b.sender ∧
      (b.gathered residue parts).fingerprint = b.fingerprint ∧
      (b.gathered residue parts).messageId = b.messageId ∧
      (b.gathered residue parts).createdMs = b.createdMs := by
  induction parts generalizing b with
  | nil => exact ⟨rfl, rfl, rfl, rfl⟩
  | cons part parts ih =>
    obtain ⟨sender, fingerprint, messageId, created⟩ := ih (b.extended part residue)
    cases part <;> exact ⟨sender, fingerprint, messageId, created⟩

theorem IsEmpty.mem_keys_gathered (h : b.IsEmpty) {index : Int} :
    index ∈ (b.gathered residue parts).parts.keys ↔ index ∈ parts.map Part.index := by
  rw [Buffer.mem_keys_gathered, h.parts]
  exact or_iff_right List.not_mem_nil

/-- The buffer of the parts that came admits those that are to come. -/
theorem IsEmpty.admits (h : b.IsEmpty) (coherent : IsCoherent messageId (done ++ part :: rest)) :
    (b.gathered residue done).Admits part := by
  have here : part ∈ done ++ part :: rest := List.mem_append_right _ List.mem_cons_self
  cases part with
  | first p =>
    refine ⟨fun n count => ?_, fun index hi => ?_⟩
    · -- Two first parts would share the index zero.
      obtain ⟨q, among, _⟩ := h.first_of_numParts count
      exact absurd (List.mem_map_of_mem among) coherent.fresh
    · obtain ⟨other, among, rfl⟩ := List.mem_map.mp (h.mem_keys_gathered.mp hi)
      exact coherent.agree p here other (List.mem_append_left _ among)
  | continuation p =>
    intro n count
    obtain ⟨q, among, rfl⟩ := h.first_of_numParts count
    exact coherent.agree q (List.mem_append_left _ among) _ here

/-- As long as a part is to come, its index is missing. -/
theorem IsEmpty.not_isComplete (h : b.IsEmpty)
    (coherent : IsCoherent messageId (done ++ part :: rest)) (nonneg : 0 ≤ part.index) :
    ¬ (b.gathered residue done).IsComplete := by
  rintro ⟨n, count, all⟩
  obtain ⟨p, among, rfl⟩ := h.first_of_numParts count
  have below := coherent.agree p (List.mem_append_left _ among) part
    (List.mem_append_right _ List.mem_cons_self)
  exact coherent.fresh (h.mem_keys_gathered.mp (all part.index nonneg below))

end Buffer

/-! ## States that differ in one slot -/

namespace Reassembler

variable {r : Reassembler} {now : Int} {s t base : State} {key : Text} {b b' : Buffer}
  {d : Delivery} {part : Part}

theorem Lacks.not_mem_keys (lacks : Lacks r s key) :
    r.place key ∉ Table.keys s.store ∧ key ∉ Table.keys s.active := by
  refine ⟨Table.get?_eq_none_iff.mp lacks.entry, fun listed => ?_⟩
  obtain ⟨created, found⟩ := Table.exists_of_mem_keys listed
  exact lacks.opened created (Table.mem_of_get? found)

/-- What saving does where there is nothing of the key. -/
theorem save_of_lacks (lacks : Lacks r s key) (saved : r.save now s key b = .ok t) :
    ∃ raw, t = { store := Table.set s.store (r.place key) raw
                 active := Table.set s.active key b.createdMs } := by
  obtain ⟨data, store, _, written, rfl⟩ := save_eq_ok saved
  obtain ⟨raw, _, rfl⟩ := View.set_eq_ok written
  exact ⟨raw, by rw [if_neg (mt Table.contains_iff.mp lacks.not_mem_keys.2)]; rfl⟩

/-- Saving over a buffer of the same time leaves what saving alone does. -/
theorem save_save (lacks : Lacks r s key) (saved : r.save now s key b = .ok t)
    (created : b'.createdMs = b.createdMs) : r.save now t key b' = r.save now s key b' := by
  obtain ⟨raw, rfl⟩ := save_of_lacks lacks saved
  have listed : Table.contains (Table.set s.active key b.createdMs) key = true :=
    Table.contains_iff.mpr (Table.mem_keys_set.mpr (.inr rfl))
  have unlisted := mt Table.contains_iff.mp lacks.not_mem_keys.2
  unfold save
  cases b'.encode with
  | error e => rfl
  | ok data =>
    simp only [View.set, if_pos listed, if_neg unlisted, created]
    cases (Record.mk bufferVersion now data).encode with
    | error e => rfl
    | ok bytes =>
      show Except.ok _ = Except.ok _
      rw [place, Table.set_set]

theorem save_shuffled (same : b.Shuffled b') : r.save now s key b = r.save now s key b' := by
  unfold save
  rw [same.encode_eq, congrArg Buffer.createdMs same.rest]

theorem delete_of_lacks (lacks : Lacks r s key) : r.delete s key = s := by
  obtain ⟨stored, listed⟩ := lacks.not_mem_keys
  exact State.ext (Table.erase_of_absent stored) (Table.erase_of_absent listed)

theorem delete_save (lacks : Lacks r s key) (saved : r.save now s key b = .ok t) :
    r.delete t key = s := by
  obtain ⟨stored, listed⟩ := lacks.not_mem_keys
  obtain ⟨raw, rfl⟩ := save_of_lacks lacks saved
  exact State.ext (Table.erase_set_of_absent stored raw) (Table.erase_set_of_absent listed _)

/-- A buffer of this very time is not removed. -/
theorem prune_save (positive : 0 < r.ttlMs) (young : r.stale now s = [])
    (saved : r.save now s key b = .ok t) (created : b.createdMs = now) : r.prune now t = t := by
  refine prune_of_stale_eq_nil (List.eq_nil_iff_forall_not_mem.mpr fun other stale => ?_)
  obtain ⟨time, opened, expired⟩ := mem_stale_iff.mp stale
  rcases (mem_active_save saved).mp opened with old | ⟨_, new, _⟩
  · have before := mem_stale_iff.mpr ⟨time, old, expired⟩
    rw [young] at before
    cases before
  · omega

/-! ## A buffer that grows -/

/-- A state which, once pruned, is `base` with a buffer laid over it, up to the order of its
parts. -/
structure Collects (r : Reassembler) (now : Int) (base : State) (key : Text) (b : Buffer)
    (s : State) : Prop where
  opens : ∀ (d : Delivery) (part : Part), d.sender = b.sender →
    d.fingerprint.getD [] = b.fingerprint → part.messageId = b.messageId →
      ∃ opened, r.bufferFor now (r.prune now s) d part key = .ok opened ∧ b.Shuffled opened
  saves : ∀ b' : Buffer, b'.createdMs = b.createdMs →
    r.save now (r.prune now s) key b' = r.save now base key b'
  deletes : r.delete (r.prune now s) key = base

theorem Lacks.prune (lacks : Lacks r s key) (now : Int) : Lacks r (r.prune now s) key :=
  lacks.congr (sameSlot_prune lacks.not_stale)

/-- At first the buffer is one that nothing has come into. -/
theorem Lacks.collects (lacks : Lacks r s key) (now : Int) (sender : Sender) (fingerprint : Bytes)
    (messageId : Int) :
    Collects r now (r.prune now s) key { sender, fingerprint, messageId, createdMs := now } s where
  opens := by
    rintro d part rfl rfl rfl
    refine ⟨freshBuffer now d part, ?_, .refl .nil⟩
    simp only [bufferFor, (lacks.prune now).load]
    rfl
  saves := fun _ _ => rfl
  deletes := delete_of_lacks (lacks.prune now)

theorem collects_save (positive : 0 < r.ttlMs) (lacks : Lacks r base key)
    (young : r.stale now base = []) (sound : b.IsSound) (created : b.createdMs = now)
    (saved : r.save now base key b = .ok t) : Collects r now base key b t := by
  have pruned := prune_save positive young saved created
  constructor
  · rintro d part - - -
    refine ⟨b.sorted, ?_, Buffer.shuffled_sorted sound.distinct⟩
    rw [pruned, bufferFor, load_save saved sound.isStorable]
  · intro b' same
    rw [pruned, save_save lacks saved same]
  · rw [pruned, delete_save lacks saved]

/-- What a part leads to that a growing buffer admits. -/
theorem Collects.handle (h : Collects r now base key b s) (sound : b.IsSound)
    (checked : r.check d = .ok (part, key)) (sender : d.sender = b.sender)
    (fingerprint : d.fingerprint.getD [] = b.fingerprint)
    (messageId : part.messageId = b.messageId) (admits : b.Admits part)
    (fresh : part.index ∉ b.parts.keys) :
    (∀ t, (b.extended part d.residue).complete? = .ok none →
      r.save now base key (b.extended part d.residue) = .ok t →
        r.handle now s d = (.ok .pending, t)) ∧
    ∀ m, (b.extended part d.residue).complete? = .ok (some m) →
      r.handle now s d = (.ok (.complete m (b.extended part d.residue).residue), base) := by
  obtain ⟨opened, found, same⟩ := h.opens d part sender fingerprint messageId
  have inserted := (same.isSound sound).insert_of_admits (same.admits admits) d.residue
  have after := same.extended fresh d.residue
  have extended : ∀ message, (b.extended part d.residue).complete? = .ok message →
      r.extend now (r.prune now s) d part key = .ok (opened.extended part d.residue, message) := by
    intro message completion
    rw [after.complete?_eq] at completion
    rw [extend, found]
    simp only [inserted, completion]
  have created : (opened.extended part d.residue).createdMs = b.createdMs := by
    rw [Buffer.createdMs_extended, congrArg Buffer.createdMs same.rest]
  constructor
  · intro t unfinished saved
    rw [save_shuffled after, ← h.saves _ created] at saved
    exact handle_of_save checked (extended none unfinished) saved
  · intro m finished
    rw [handle_of_message checked (extended (some m) finished), h.deletes,
      congrArg Buffer.residue after.rest]

/-! ## Parts one after another -/

/-- What is answered on the way. -/
def answers (r : Reassembler) (w : World) (ops : List Operation) : List Answer :=
  (r.history w ops).map Event.answer

/-- The answer to a part that leaves the message incomplete. -/
def awaited : Answer := .handled (.ok .pending)

/-- Byte strings that come in one after another, with whatever else a delivery says. -/
def arrivals (d : Delivery) (raws : List Bytes) : List Operation :=
  raws.map fun raw => .deliver { d with contents := raw }

/-- What so many parts lead to that a buffer is made of: it is written, or its message is given with
the last of them. -/
inductive Settles (r : Reassembler) (now : Int) (base : State) (key : Text) (b : Buffer) :
    Nat → World → List Answer → Prop where
  | waits (count : Nat) (t : State) (unfinished : b.complete? = .ok none)
      (saved : r.save now base key b = .ok t) :
      Settles r now base key b count ⟨now, t⟩ (List.replicate count awaited)
  | gives (count : Nat) (m : Message) (finished : b.complete? = .ok (some m)) :
      Settles r now base key b (count + 1) ⟨now, base⟩
        (List.replicate count awaited ++ [.handled (.ok (.complete m b.residue))])

theorem Settles.cons {count : Nat} {w : World} {given : List Answer}
    (h : Settles r now base key b count w given) :
    Settles r now base key b (count + 1) w (awaited :: given) := by
  cases h with
  | waits count t unfinished saved => exact .waits (count + 1) t unfinished saved
  | gives count m finished => exact .gives (count + 1) m finished

/-- Only the last answer can be a message, and all others are that one is awaited. -/
theorem Settles.given {count : Nat} {w : World} {given : List Answer}
    (h : Settles r now base key b count w given) :
    given = List.replicate count awaited ∨ ∃ m residue, given
      = List.replicate (count - 1) awaited ++ [.handled (.ok (.complete m residue))] := by
  cases h with
  | waits => exact .inl rfl
  | gives count m => exact .inr ⟨m, b.residue, rfl⟩

/-- The order of the parts does not show in what they lead to. -/
theorem Settles.unique {count : Nat} {w w' : World} {given given' : List Answer}
    (h : Settles r now base key b count w given) (h' : Settles r now base key b' count w' given')
    (same : b.Shuffled b') : w = w' ∧ given = given' := by
  have completion := same.complete?_eq
  cases h with
  | waits _ t unfinished saved =>
    cases h' with
    | waits _ t' unfinished' saved' =>
      rw [save_shuffled same, saved'] at saved
      cases saved
      exact ⟨rfl, rfl⟩
    | gives _ m' finished' =>
      rw [unfinished, finished'] at completion
      cases completion
  | gives n m finished =>
    cases h' with
    | waits _ t' unfinished' saved' =>
      rw [finished, unfinished'] at completion
      cases completion
    | gives _ m' finished' =>
      rw [finished, finished'] at completion
      cases completion
      rw [congrArg Buffer.residue same.rest]
      exact ⟨rfl, rfl⟩

/-- The buffer of parts of a message that come in at one time. -/
def bufferOf (d : Delivery) (messageId now : Int) (parts : List Part) : Buffer :=
  Buffer.gathered
    { sender := d.sender, fingerprint := d.fingerprint.getD [], messageId, createdMs := now }
    d.residue parts

theorem shuffled_bufferOf {parts parts' : List Part} {messageId : Int} (order : parts.Perm parts')
    (distinct : (parts.map Part.index).Nodup) (now : Int) :
    (bufferOf d messageId now parts).Shuffled (bufferOf d messageId now parts') := by
  refine Buffer.shuffled_gathered_perm order ?_ distinct ?_ d.residue
  · exact .nil
  · exact fun _ _ => List.not_mem_nil

/-- Where they come in: a state without old buffers that has nothing of the message. -/
structure Awaits (r : Reassembler) (now : Int) (base : State) (key : Text) (d : Delivery)
    (messageId : Int) : Prop where
  positive : 0 < r.ttlMs
  written : Integer.isWritable now = true
  valid : d.sender.IsValid
  derived : conversationKey d.sender (d.fingerprint.getD []) messageId = .ok key
  lacks : Lacks r base key
  young : r.stale now base = []

section Arrivals

variable {messageId : Int} {done rest : List Part} {raw : Bytes} {raws : List Bytes}

theorem isEmpty_opened (d : Delivery) (messageId now : Int) : Buffer.IsEmpty
    { sender := d.sender, fingerprint := d.fingerprint.getD [], messageId, createdMs := now } :=
  ⟨rfl, rfl⟩

/-- What the next part leads to. -/
theorem Awaits.handle (h : Awaits r now base key d messageId)
    (collects : Collects r now base key (bufferOf d messageId now done) s)
    (sound : (bufferOf d messageId now done).IsSound) (parsed : Part.parse raw = .ok part)
    (length : (raw.length : Int) ≤ r.maxFragmentSize)
    (coherent : IsCoherent messageId (done ++ part :: rest)) :
    (bufferOf d messageId now (done ++ [part])).IsSound ∧
    ((bufferOf d messageId now (done ++ [part])).complete? = .ok none →
      ∃ t, r.handle now s { d with contents := raw } = (.ok .pending, t) ∧
        r.save now base key (bufferOf d messageId now (done ++ [part])) = .ok t ∧
          Collects r now base key (bufferOf d messageId now (done ++ [part])) t) ∧
    ∀ m, (bufferOf d messageId now (done ++ [part])).complete? = .ok (some m) →
      r.handle now s { d with contents := raw }
        = (.ok (.complete m (bufferOf d messageId now (done ++ [part])).residue), base) := by
  have here : part ∈ done ++ part :: rest := List.mem_append_right _ List.mem_cons_self
  have id := coherent.messageId part here
  have limit := coherent.indices part here
  have empty := isEmpty_opened d messageId now
  have admits : (bufferOf d messageId now done).Admits part := empty.admits coherent
  have fresh : part.index ∉ (bufferOf d messageId now done).parts.keys :=
    mt empty.mem_keys_gathered.mp coherent.fresh
  obtain ⟨sender, fingerprint, identity, created⟩ := Buffer.gathered_whose
    { sender := d.sender, fingerprint := d.fingerprint.getD [], messageId, createdMs := now }
    d.residue done
  have checked : r.check { d with contents := raw } = .ok (part, key) :=
    check_of_parts length parsed limit (id ▸ h.derived)
  have next : bufferOf d messageId now (done ++ [part])
      = (bufferOf d messageId now done).extended part d.residue := Buffer.gathered_append done
  obtain ⟨pending, complete⟩ := collects.handle sound checked sender.symm fingerprint.symm
    (id.trans identity.symm) admits fresh
  have sound' := sound.extended (Part.parse_inBounds parsed) limit admits d.residue
  have created' : (bufferOf d messageId now (done ++ [part])).createdMs = now := by
    rw [next, Buffer.createdMs_extended]
    exact created
  rw [next] at created' ⊢
  refine ⟨sound', fun unfinished => ?_, complete⟩
  have writable : Integer.isWritable
      ((bufferOf d messageId now done).extended part d.residue).createdMs = true := by
    rw [created']
    exact h.written
  obtain ⟨t, saved⟩ := save_ok r base key sound' writable h.written
  exact ⟨t, pending t unfinished saved, saved,
    collects_save h.positive h.lacks h.young sound' created' saved⟩

/-- Parts that agree lead to the buffer of all of them, or to its message. -/
theorem Awaits.settles (h : Awaits r now base key d messageId)
    (parsed : List.Forall₂ (fun raw part => Part.parse raw = .ok part) (raw :: raws) (part :: rest))
    (lengths : ∀ raw' ∈ raw :: raws, (raw'.length : Int) ≤ r.maxFragmentSize)
    (coherent : IsCoherent messageId (done ++ part :: rest))
    (collects : Collects r now base key (bufferOf d messageId now done) s)
    (sound : (bufferOf d messageId now done).IsSound) :
    Settles r now base key (bufferOf d messageId now (done ++ part :: rest)) (rest.length + 1)
      (r.run ⟨now, s⟩ (arrivals d (raw :: raws)))
      (r.answers ⟨now, s⟩ (arrivals d (raw :: raws))) := by
  induction rest generalizing done part raw raws s with
  | nil =>
    obtain ⟨read, none⟩ := List.forall₂_cons.mp parsed
    cases none
    obtain ⟨sound', pending, complete⟩ :=
      h.handle collects sound read (lengths raw List.mem_cons_self) coherent
    show Settles r now base key _ 1 ⟨now, (r.handle now s { d with contents := raw }).2⟩
      [.handled (r.handle now s { d with contents := raw }).1]
    by_cases finished : (bufferOf d messageId now (done ++ [part])).IsComplete
    · have declared := finished
      obtain ⟨n, count, _⟩ := declared
      have message := Buffer.complete?_of_isComplete count finished
      rw [complete _ message]
      exact .gives 0 _ message
    · have unfinished := sound'.complete?_of_not_isComplete finished
      obtain ⟨t, answer, saved, _⟩ := pending unfinished
      rw [answer]
      exact .waits 1 t unfinished saved
  | cons next rest ih =>
    obtain ⟨read, later⟩ := List.forall₂_cons.mp parsed
    obtain ⟨raw', raws', read', _, rfl⟩ := List.forall₂_cons_right_iff.mp later
    obtain ⟨sound', pending, _⟩ :=
      h.handle collects sound read (lengths raw List.mem_cons_self) coherent
    have coherent' : IsCoherent messageId ((done ++ [part]) ++ next :: rest) := by
      rwa [List.append_assoc]
    have unfinished := sound'.complete?_of_not_isComplete
      ((isEmpty_opened d messageId now).not_isComplete coherent'
        (Part.parse_inBounds read').index.1)
    obtain ⟨t, answer, _, collects'⟩ := pending unfinished
    have onward := ih later (fun raw' hr => lengths raw' (List.mem_cons_of_mem _ hr)) coherent'
      collects' sound'
    rw [List.append_assoc] at onward
    show Settles r now base key _ (rest.length + 1 + 1)
      (r.run ⟨now, (r.handle now s { d with contents := raw }).2⟩ (arrivals d (raw' :: raws')))
      (.handled (r.handle now s { d with contents := raw }).1 ::
        r.answers ⟨now, (r.handle now s { d with contents := raw }).2⟩ (arrivals d (raw' :: raws')))
    rw [answer]
    exact onward.cons

/-- A bundle that comes into a state that has nothing of its message. -/
theorem settles_bundle {parts : List Part} (positive : 0 < r.ttlMs)
    (written : Integer.isWritable now = true) (valid : d.sender.IsValid)
    (derived : conversationKey d.sender (d.fingerprint.getD []) messageId = .ok key)
    (lacks : Lacks r s key) (bundle : IsBundle r.maxFragmentSize messageId (raw :: raws) parts) :
    Settles r now (r.prune now s) key (bufferOf d messageId now parts) parts.length
      (r.run ⟨now, s⟩ (arrivals d (raw :: raws)))
      (r.answers ⟨now, s⟩ (arrivals d (raw :: raws))) := by
  obtain ⟨part, rest, read, _, rfl⟩ := List.forall₂_cons_left_iff.mp bundle.parsed
  have awaits : Awaits r now (r.prune now s) key d messageId :=
    ⟨positive, written, valid, derived, lacks.prune now, stale_prune r now s⟩
  have id := (Part.parse_inBounds read).messageId
  rw [bundle.coherent.messageId part List.mem_cons_self] at id
  have coherent : IsCoherent messageId ([] ++ part :: rest) := bundle.coherent
  exact awaits.settles bundle.parsed bundle.lengths coherent
    (lacks.collects now d.sender (d.fingerprint.getD []) messageId)
    (Buffer.isSound_opened valid (Integer.isWritable_of_lt id.1 (by omega)) _ _)

/-- Parts that agree and come in at one time, in one order or another, leave the same store and the
same index and get the same answers, none of which is a refusal; if the message is given at all, it
is with the last part. -/
theorem arrival_order_traceless {root : View} {maxFragmentSize ttlMs : Int} {raws' : List Bytes}
    {parts : List Part} (made : create root maxFragmentSize ttlMs = .ok r)
    (written : Integer.isWritable now = true) (valid : d.sender.IsValid)
    (derived : conversationKey d.sender (d.fingerprint.getD []) messageId = .ok key)
    (lacks : Lacks r s key) (bundle : IsBundle maxFragmentSize messageId raws parts)
    (order : raws.Perm raws') :
    r.run ⟨now, s⟩ (arrivals d raws) = r.run ⟨now, s⟩ (arrivals d raws') ∧
      r.answers ⟨now, s⟩ (arrivals d raws) = r.answers ⟨now, s⟩ (arrivals d raws') ∧
      (r.answers ⟨now, s⟩ (arrivals d raws) = List.replicate raws.length awaited ∨
        ∃ m residue, r.answers ⟨now, s⟩ (arrivals d raws)
          = List.replicate (raws.length - 1) awaited
              ++ [.handled (.ok (.complete m residue))]) := by
  obtain ⟨_, size, _, ttl, positive⟩ := create_eq_ok made
  rw [← ttl] at positive
  rw [← size] at bundle
  cases raws with
  | nil =>
    obtain rfl := List.nil_perm.mp order
    exact ⟨rfl, rfl, .inl rfl⟩
  | cons raw raws =>
    cases raws' with
    | nil => cases List.perm_nil.mp order
    | cons raw' raws' =>
      obtain ⟨parts', shuffle, bundle'⟩ := bundle.perm order
      have one := settles_bundle positive written valid derived lacks bundle
      have two := settles_bundle positive written valid derived lacks bundle'
      rw [← shuffle.length_eq] at two
      obtain ⟨world, given⟩ :=
        one.unique two (shuffled_bufferOf shuffle bundle.coherent.distinct now)
      rw [← bundle.parsed.length_eq] at one
      exact ⟨world, given, one.given⟩

/-- The first of two parts of message nine. -/
def headOfTwo : Bytes := [0, 0, 0, 9, 0, 0, 1, 2, 0, 0, 0, 5, 0, 0, 0, 0, 0, 0, 0, 8, 7, 0]

def tailOfTwo : Bytes := [0, 0, 0, 9, 1, 0, 1, 65, 0]

theorem arrival_order_traceless_two :
    narrow.run ⟨0, {}⟩ (arrivals straggler [headOfTwo, tailOfTwo])
        = narrow.run ⟨0, {}⟩ (arrivals straggler [tailOfTwo, headOfTwo]) ∧
      narrow.answers ⟨0, {}⟩ (arrivals straggler [headOfTwo, tailOfTwo])
        = narrow.answers ⟨0, {}⟩ (arrivals straggler [tailOfTwo, headOfTwo]) := by
  have coherent : IsCoherent 9 [.first ⟨9, 2, 5, 8, [7]⟩, .continuation ⟨9, 1, [65]⟩] := by
    refine ⟨by decide, by decide, by decide, fun p first => ?_⟩
    rcases List.mem_pair.mp first with h | h
    · cases h
      decide
    · cases h
  have head : Part.parse headOfTwo = .ok (.first ⟨9, 2, 5, 8, [7]⟩) :=
    toOption_eq_some.mp (by decide)
  have tail : Part.parse tailOfTwo = .ok (.continuation ⟨9, 1, [65]⟩) :=
    toOption_eq_some.mp (by decide)
  have bundle : IsBundle 64 9 [headOfTwo, tailOfTwo]
      [.first ⟨9, 2, 5, 8, [7]⟩, .continuation ⟨9, 1, [65]⟩] :=
    ⟨.cons head (.cons tail .nil), by decide, coherent⟩
  have made : create View.shallow 64 1000 = .ok narrow := rfl
  have derived : conversationKey straggler.sender (straggler.fingerprint.getD []) 9
      = .ok stragglerKey := rfl
  have valid : straggler.sender.IsValid := rfl
  obtain ⟨world, given, _⟩ := arrival_order_traceless made
    (Integer.isWritable_of_lt (Int.le_refl 0) (by decide)) valid derived
    (lacks_empty narrow stragglerKey) bundle (.swap tailOfTwo headOfTwo [])
  exact ⟨world, given⟩

end Arrivals

end Reassembler

end PartRelay.Reassembly
