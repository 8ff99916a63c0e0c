import PartRelay.Proofs.Reassembly.Runs
import PartRelay.Proofs.Reassembly.SoundBuffer

/-!
# Windows

The window of a key is the list of the parts that were taken in for it since it was last empty: at
the start, after the part that completed a message, and after pruning at a time by which the first
part of the window had expired. It is read off the history and knows nothing of the store. A buffer
gathers a window when it says of every index and of the message what the window says.
-/

namespace PartRelay.Reassembly

/-! ## Calls -/

/-- A part that was taken in, with its delivery and its time. -/
structure Call where
  now : Int
  delivery : Delivery
  part : Part

/-- The call with its part, if that is a first part. -/
def Call.first? (call : Call) : Option (Call × FirstPart) :=
  match call.part with
  | .first p => some (call, p)
  | .continuation _ => none

/-- The calls of a window in order. -/
abbrev Window := List Call

namespace Window

/-! ## What a window says -/

/-- Whether a first part says that there are `n` parts. -/
def Declares (win : Window) (n : Int) : Prop :=
  ∃ call ∈ win, ∃ p, call.part = .first p ∧ p.numParts = n

/-- Whether a part with this index is there. -/
def Holds (win : Window) (index : Int) : Prop := ∃ call ∈ win, call.part.index = index

/-- The contents of the latest part with this index. -/
def contents? (win : Window) (index : Int) : Option Bytes :=
  (win.filter fun call => call.part.index = index).getLast?.map (·.part.contents)

/-- The latest first part, with its call. -/
def heading? (win : Window) : Option (Call × FirstPart) := (win.filterMap Call.first?).getLast?

/-- Whether a part agrees with the first parts and the indices of the window. -/
def Admits (win : Window) : Part → Prop
  | .first p =>
    (∀ n, win.Declares n → n = p.numParts) ∧ ∀ index, win.Holds index → index < p.numParts
  | .continuation p => ∀ n, win.Declares n → p.index < n

/-- Whether a first part is there and every index that it promises. -/
def IsComplete (win : Window) : Prop :=
  ∃ n, win.Declares n ∧ ∀ index, 0 ≤ index → index < n → win.Holds index

/-- The latest contents below `n`, in order of the indices. -/
def payload (win : Window) (n : Int) : Bytes :=
  (List.range n.toNat).flatMap fun (i : Nat) => (win.contents? i).getD []

/-- What pruning leaves of a window: all of it, or nothing once its first part has expired. -/
def live (ttlMs now : Int) : Window → Window
  | [] => []
  | call :: win => if call.now + ttlMs ≤ now then [] else call :: win

variable {win : Window} {call : Call}

/-- A window whose calls are all young is left as it is. -/
theorem live_of_young {ttlMs now : Int} (young : ∀ call ∈ win, now < call.now + ttlMs) :
    win.live ttlMs now = win := by
  cases win with
  | nil => rfl
  | cons opener win =>
    have later := young opener List.mem_cons_self
    rw [live, if_neg (by omega)]

/-! ## One more call -/

theorem declares_append_first {p : FirstPart} (h : call.part = .first p) {n : Int} :
    Declares (win ++ [call]) n ↔ win.Declares n ∨ p.numParts = n := by
  simp [Declares, or_and_right, exists_or, h]

theorem declares_append_continuation {p : Continuation} (h : call.part = .continuation p)
    {n : Int} : Declares (win ++ [call]) n ↔ win.Declares n := by
  simp [Declares, or_and_right, exists_or, h]

theorem contents?_append (index : Int) : contents? (win ++ [call]) index
    = if call.part.index = index then some call.part.contents else win.contents? index := by
  rw [contents?, List.filter_append]
  split
  next same => simp [same]
  next other => simp [other, contents?]

theorem heading?_append_first {p : FirstPart} (h : call.part = .first p) :
    heading? (win ++ [call]) = some (call, p) := by
  simp [heading?, List.filterMap_append, Call.first?, h]

theorem heading?_append_continuation {p : Continuation} (h : call.part = .continuation p) :
    heading? (win ++ [call]) = win.heading? := by
  simp [heading?, List.filterMap_append, Call.first?, h]

theorem contents?_isSome_iff {index : Int} : (win.contents? index).isSome ↔ win.Holds index := by
  rw [contents?, Option.isSome_map, List.getLast?_isSome, ne_eq, List.filter_eq_nil_iff]
  simp [Holds]

theorem heading?_of_declares {n : Int} (h : win.Declares n) :
    ∃ heading, win.heading? = some heading := by
  obtain ⟨call, hc, p, first, _⟩ := h
  rw [← Option.isSome_iff_exists, heading?, List.getLast?_isSome]
  refine List.ne_nil_of_mem (a := (call, p)) (List.mem_filterMap.mpr ⟨call, hc, ?_⟩)
  rw [Call.first?, first]

theorem declares_of_heading? {p : FirstPart} (h : win.heading? = some (call, p)) :
    win.Declares p.numParts := by
  obtain ⟨c, hc, first⟩ := List.mem_filterMap.mp (List.mem_of_getLast? h)
  rw [Call.first?] at first
  split at first
  next q part =>
    cases first
    exact ⟨call, hc, p, part, rfl⟩
  next => cases first

end Window

/-! ## Buffers that gather a window -/

namespace Buffer

structure Gathers (b : Buffer) (win : Window) : Prop where
  declared : ∀ n, b.numParts = .int n ↔ win.Declares n
  heading : ∀ call p, win.heading? = some (call, p) → b.messageType = p.messageType ∧
    b.timestampNs = p.timestampNs ∧ b.residue = call.delivery.residue
  contents : ∀ index, b.parts.get? index = win.contents? index

variable {b : Buffer} {win : Window}

/-- A buffer that was opened gathers nothing yet. -/
theorem gathers_nil (count : b.numParts = .null) (empty : b.parts = []) : b.Gathers [] where
  declared := by simp [count, Window.Declares]
  heading := by
    intro call p h
    cases h
  contents := by
    intro index
    rw [empty]
    rfl

theorem Gathers.mem_keys_iff (h : b.Gathers win) {index : Int} :
    index ∈ b.parts.keys ↔ win.Holds index := by
  rw [← Table.contains_iff, Table.contains, h.contents, Window.contents?_isSome_iff]

theorem Gathers.admits_iff (h : b.Gathers win) {part : Part} : b.Admits part ↔ win.Admits part := by
  cases part with
  | first p => simp only [Admits, Window.Admits, h.declared, h.mem_keys_iff]
  | continuation p => simp only [Admits, Window.Admits, h.declared]

theorem Gathers.isComplete_iff (h : b.Gathers win) : b.IsComplete ↔ win.IsComplete := by
  simp only [IsComplete, Window.IsComplete, h.declared, h.mem_keys_iff]

theorem Gathers.payload_eq (h : b.Gathers win) (n : Int) : b.payload n = win.payload n := by
  simp only [payload, Window.payload, h.contents]

theorem Gathers.sorted (h : b.Gathers win) (distinct : b.parts.keys.Nodup) :
    b.sorted.Gathers win where
  declared := h.declared
  heading := h.heading
  contents := fun index => (get?_sortParts distinct index).trans (h.contents index)

/-- Taking a part in adds its call to the window. -/
theorem Gathers.extended (h : b.Gathers win) {call : Call} (admits : b.Admits call.part) :
    (b.extended call.part call.delivery.residue).Gathers (win ++ [call]) where
  declared := by
    intro n
    cases part : call.part with
    | first p =>
      rw [part] at admits
      rw [Window.declares_append_first part, ← h.declared]
      show Json.int p.numParts = .int n ↔ _
      rw [Json.int.injEq]
      exact ⟨.inr, fun either => either.elim (fun old => (admits.1 n old).symm) id⟩
    | continuation p =>
      rw [Window.declares_append_continuation part]
      exact h.declared n
  heading := by
    intro c p latest
    cases part : call.part with
    | first q =>
      rw [Window.heading?_append_first part] at latest
      cases latest
      exact ⟨rfl, rfl, rfl⟩
    | continuation q =>
      rw [Window.heading?_append_continuation part] at latest
      exact h.heading c p latest
  contents := by
    intro index
    rw [parts_extended, Table.get?_set, Window.contents?_append, h.contents]

end Buffer

/-! ## Windows read off a history -/

/-- Whether an event is the delivery of a call that was taken in under a key. -/
structure Event.TakesIn (event : Event) (r : Reassembler) (key : Text) (call : Call) : Prop where
  now : event.now = call.now
  operation : event.operation = .deliver call.delivery
  checked : r.check call.delivery = .ok (call.part, key)
  answer : event.answer = .handled (.ok .pending)

namespace Reassembler

/-- The window of a key after one more event. Only what the checks let pass prunes, and only what
is answered without an error is taken in. -/
def after (r : Reassembler) (key : Text) (win : Window) (event : Event) : Window :=
  match event.operation with
  | .advance _ => win
  | .prune => win.live r.ttlMs event.now
  | .deliver d =>
    match r.check d with
    | .error _ => win
    | .ok (part, k) =>
      let left := win.live r.ttlMs event.now
      if k = key then
        match event.answer with
        | .handled (.ok .pending) => left ++ [⟨event.now, d, part⟩]
        | .handled (.ok (.complete _ _)) => []
        | _ => left
      else left

/-- The window of a key after a history that began without one. -/
def window (r : Reassembler) (key : Text) (events : List Event) : Window :=
  events.foldl (r.after key) []

variable {r : Reassembler} {key : Text} {win : Window} {call : Call}

theorem window_append (w : World) (ops : List Operation) (op : Operation) :
    r.window key (r.history w (ops ++ [op])) = r.after key (r.window key (r.history w ops))
      ⟨(r.run w ops).now, op, (r.step (r.run w ops) op).1⟩ := by
  rw [window, history_append, List.foldl_append]
  rfl

theorem live_sublist (ttlMs now : Int) (win : Window) : (win.live ttlMs now).Sublist win := by
  cases win with
  | nil => exact .slnil
  | cons opener win =>
    rw [Window.live]
    split
    · exact List.nil_sublist _
    · exact .refl _

theorem mem_of_mem_live {ttlMs now : Int} (h : call ∈ win.live ttlMs now) : call ∈ win :=
  (live_sublist ttlMs now win).subset h

/-- An event leaves some of the window, and may add the call that it is the delivery of. -/
theorem after_cases (r : Reassembler) (key : Text) (win : Window) (event : Event) :
    (r.after key win event).Sublist win ∨ ∃ left call, left.Sublist win ∧
      event.TakesIn r key call ∧ r.after key win event = left ++ [call] := by
  obtain ⟨now, operation, answer⟩ := event
  cases operation with
  | advance ms => exact .inl (.refl _)
  | prune => exact .inl (live_sublist ..)
  | deliver d =>
    cases checked : r.check d with
    | error e =>
      simp only [after, checked]
      exact .inl (.refl _)
    | ok result =>
      obtain ⟨part, k⟩ := result
      simp only [after, checked]
      split
      next same =>
        subst same
        split
        · exact .inr ⟨_, _, live_sublist .., ⟨rfl, rfl, checked, rfl⟩, rfl⟩
        · exact .inl (List.nil_sublist _)
        · exact .inl (live_sublist ..)
      next => exact .inl (live_sublist ..)

/-- Where a call in a window comes from: it was there before, or it is the delivery itself. -/
theorem mem_after {event : Event} (h : call ∈ r.after key win event) :
    call ∈ win ∨ event.TakesIn r key call := by
  rcases after_cases r key win event with left | ⟨left, new, sublist, taken, eq⟩
  · exact .inl (left.subset h)
  · rw [eq] at h
    rcases List.mem_append.mp h with old | last
    · exact .inl (sublist.subset old)
    · exact .inr (List.mem_singleton.mp last ▸ taken)

theorem mem_foldl_after {events : List Event} (h : call ∈ events.foldl (r.after key) win) :
    call ∈ win ∨ ∃ event ∈ events, event.TakesIn r key call := by
  -- A window only loses calls on the way, apart from the one that an event adds.
  induction events generalizing win with
  | nil => exact .inl h
  | cons event events ih =>
    rcases ih h with here | ⟨later, hl, from'⟩
    · rcases mem_after here with old | new
      · exact .inl old
      · exact .inr ⟨event, List.mem_cons_self, new⟩
    · exact .inr ⟨later, List.mem_cons_of_mem _ hl, from'⟩

/-- Every call in a window was delivered in the run, at a time of the run, for this key. -/
theorem mem_window {w : World} {ops : List Operation} (h : call ∈ r.window key (r.history w ops)) :
    .deliver call.delivery ∈ ops ∧ w.now ≤ call.now ∧ call.now ≤ (r.run w ops).now ∧
      r.check call.delivery = .ok (call.part, key) := by
  rcases mem_foldl_after h with none | ⟨event, happened, taken⟩
  · cases none
  · obtain ⟨done, after, before⟩ := r.mem_history w happened
    rw [taken.operation] at done
    rw [taken.now] at after before
    exact ⟨done, after, before, taken.checked⟩

end Reassembler

end PartRelay.Reassembly
