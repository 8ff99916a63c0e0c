import PartRelay.Proofs.Reassembly.Reloading

/-!
# The type of a message

A message carries the type of the latest first part that was taken in for it. This is so from any
state on: a message without a first part since then carries the type of the buffer that was in the
store at the start.
-/

namespace PartRelay.Reassembly

/-- The first part that an event takes in under a key. One that completes a message counts. -/
def Event.first? (event : Event) (r : Reassembler) (key : Text) : Option FirstPart :=
  match event.operation, event.answer with
  | .deliver d, .handled (.ok _) =>
    match r.check d with
    | .ok (.first p, k) => if k = key then some p else none
    | _ => none
  | _, _ => none

namespace Reassembler

/-- The latest first part that was taken in under a key. -/
def latestFirst? (r : Reassembler) (events : List Event) (key : Text) : Option FirstPart :=
  (events.filterMap (·.first? r key)).getLast?

/-- What the type of a message is that is under way after `events`: that of the latest first part,
and if there was none, that of the buffer in the state before them. -/
def Carries (r : Reassembler) (start : State) (events : List Event) (key : Text) (type : Int) :
    Prop :=
  match r.latestFirst? events key with
  | some p => type = p.messageType
  | none => ∃ b, r.load start key = .ok (some b) ∧ type = b.messageType

variable {r : Reassembler} {now : Int} {start s : State} {key : Text} {d : Delivery}
  {p : FirstPart} {events : List Event} {event : Event} {type : Int}

theorem latestFirst?_append_of_none (h : event.first? r key = none) :
    r.latestFirst? (events ++ [event]) key = r.latestFirst? events key := by
  simp [latestFirst?, List.filterMap_append, h]

theorem latestFirst?_append_of_some (h : event.first? r key = some p) :
    r.latestFirst? (events ++ [event]) key = some p := by
  simp [latestFirst?, List.filterMap_append, h]

theorem Carries.append (h : r.Carries start events key type) (other : event.first? r key = none) :
    r.Carries start (events ++ [event]) key type := by
  rw [Carries, latestFirst?_append_of_none other]
  exact h

theorem carries_of_first (h : event.first? r key = some p) :
    r.Carries start (events ++ [event]) key p.messageType := by
  rw [Carries, latestFirst?_append_of_some h]

/-! ## Buffers that know their type -/

/-- Every buffer that knows its number of parts has the type that a message of it will carry. -/
def IsHeaded (r : Reassembler) (start : State) (events : List Event) (s : State) : Prop :=
  ∀ key b, r.load s key = .ok (some b) → b.numParts ≠ .null →
    r.Carries start events key b.messageType

theorem isHeaded_start (r : Reassembler) (start : State) : r.IsHeaded start [] start :=
  fun _ b loaded _ => ⟨b, loaded, rfl⟩

theorem load_of_prune {b : Buffer} (h : r.load (r.prune now s) key = .ok (some b)) :
    r.load s key = .ok (some b) := by
  by_cases stale : key ∈ r.stale now s
  · rw [(lacks_prune stale).load] at h
    cases h
  · exact (sameSlot_prune stale).load.trans h

theorem IsHeaded.prune (h : r.IsHeaded start events s) (now : Int) :
    r.IsHeaded start events (r.prune now s) :=
  fun key b loaded => h key b (load_of_prune loaded)

/-- The type of the buffer that a part leaves, if it knows its number of parts. -/
theorem IsHeaded.carries_of_extend {part : Part} {b : Buffer} {message : Option Message}
    (h : r.IsHeaded start events s) (checked : r.check d = .ok (part, key)) (progress : Progress)
    (extended : r.extend now s d part key = .ok (b, message)) (known : b.numParts ≠ .null) :
    r.Carries start (events ++ [⟨now, .deliver d, .handled (.ok progress)⟩]) key
      b.messageType := by
  obtain ⟨opened, found, rfl, _⟩ := extend_eq_ok extended
  cases part with
  | first p =>
    refine carries_of_first (p := p) ?_
    simp [Event.first?, checked]
  | continuation p =>
    -- A continuation says nothing of the type, and a buffer that it opens has no number of parts.
    rcases bufferFor_eq_ok found with loaded | ⟨_, rfl⟩
    · refine (h key opened loaded known).append ?_
      simp [Event.first?, checked]
    · exact absurd rfl known

theorem IsHeaded.handle (h : r.IsHeaded start events s) (now : Int) (d : Delivery) :
    r.IsHeaded start (events ++ [⟨now, .deliver d, .handled (r.handle now s d).1⟩])
      (r.handle now s d).2 := by
  intro key b loaded known
  cases checked : r.check d with
  | error e =>
    rw [handle_of_check_error checked] at loaded ⊢
    refine (h key b loaded known).append ?_
    simp [Event.first?]
  | ok result =>
    obtain ⟨part, other⟩ := result
    have pruned := h.prune now
    by_cases same : other = key
    · subst same
      rcases handle_cases now s checked with
        ⟨e, eq⟩ | ⟨b', t, extended, saved, eq⟩ | ⟨b', m, _, eq⟩
      · rw [eq] at loaded ⊢
        exact (pruned other b loaded known).append rfl
      · rw [eq] at loaded ⊢
        -- What is read has its parts in another order than what was saved, and the same type.
        obtain rfl := load_of_extend checked extended saved loaded
        have type : r.Carries start _ other b'.messageType :=
          pruned.carries_of_extend checked .pending extended known
        exact type
      · rw [eq, (lacks_delete ..).load] at loaded
        cases loaded
    · have before := (sameSlot_handle checked same).load.trans loaded
      refine (pruned key b before known).append ?_
      cases part <;> cases (r.handle now s d).1 <;> simp [Event.first?, checked, same]

/-- The type of a message that is complete. -/
theorem IsHeaded.carries_of_complete {m : Message} {residue : Option Bytes} {part : Part}
    (h : r.IsHeaded start events s) (checked : r.check d = .ok (part, key))
    (completed : (r.handle now s d).1 = .ok (.complete m residue)) :
    r.Carries start (events ++ [⟨now, .deliver d, .handled (r.handle now s d).1⟩]) key
      m.messageType := by
  rw [completed]
  obtain ⟨b, extended⟩ := extend_of_complete checked completed
  obtain ⟨opened, _, _, completion⟩ := extend_eq_ok extended
  have known : b.numParts ≠ .null := by
    intro unknown
    simp [Buffer.complete?, unknown, countOf] at completion
  obtain ⟨n, rfl, _⟩ := Buffer.complete?_eq_some completion
  exact (h.prune now).carries_of_extend checked _ extended known

end Reassembler

end PartRelay.Reassembly
