import PartRelay.Proofs.Part.SplitParts
import PartRelay.Proofs.Reassembly.Keys
import PartRelay.Proofs.Reassembly.Window

/-!
# Messages on their way

A transfer is a message with the parts that it was cut into and the key under which they meet. A
window that holds only parts of the transfer accepts every part of it, and it is complete when it
holds them all; it then says what the message says, in whatever order the parts came and however
often.
-/

namespace PartRelay.Reassembly

/-- With a fingerprint that is too long the parts of a message are refused, one and all. -/
theorem Reassembler.handle_of_long {r : Reassembler} {memory : Memory} {payload : Bytes}
    {size messageId messageType timestampNs : Int} {parts : List Bytes} {d : Delivery}
    (made : Part.split memory payload size messageId messageType timestampNs = .ok parts)
    (fits : size ≤ r.maxFragmentSize) (among : d.contents ∈ parts)
    (long : 0x100000000 ≤ (d.fingerprint.getD []).length) (now : Int) (s : State) :
    r.handle now s d = (.error (.key .tooBig), s) := by
  obtain ⟨pieces, cut⟩ := Part.split_eq_ok made
  obtain ⟨i, _, _, parsed, limit⟩ := cut.parse_of_mem among
  have length : (d.contents.length : Int) ≤ r.maxFragmentSize := cut.sizes _ among ▸ fits
  exact handle_of_check_error (check_of_long length parsed limit long)

structure Transfer where
  memory : Memory
  message : Message
  size : Int
  parts : List Bytes
  split : Part.split memory message.payload size message.messageId message.messageType
    message.timestampNs = .ok parts
  key : Text
  derived : conversationKey message.sender message.fingerprint message.messageId = .ok key

namespace Transfer

/-! ## Deliveries -/

/-- Whether a delivery brings a part of the transfer. -/
def Owns (m : Transfer) (d : Delivery) : Prop :=
  d.sender = m.message.sender ∧ d.fingerprint.getD [] = m.message.fingerprint ∧
    d.contents ∈ m.parts

instance (m : Transfer) (d : Delivery) : Decidable (m.Owns d) :=
  inferInstanceAs (Decidable (_ ∧ _ ∧ _))

/-- Whether a delivery is of another conversation, or is no part at all. -/
def Spares (m : Transfer) (d : Delivery) : Prop :=
  d.sender.raw.length = Sender.length ∧ ∀ part, Part.parse d.contents = .ok part →
    ¬ (d.sender = m.message.sender ∧ d.fingerprint.getD [] = m.message.fingerprint ∧
      part.messageId = m.message.messageId)

/-- The pieces of the payload that the parts carry. -/
def IsCut (m : Transfer) (pieces : List Bytes) : Prop :=
  Part.AreParts m.parts m.message.payload m.size m.message.messageId m.message.messageType
    m.message.timestampNs pieces

theorem exists_isCut (m : Transfer) : ∃ pieces, m.IsCut pieces := Part.split_eq_ok m.split

/-- The part that carries the piece with this index. -/
def partAt (m : Transfer) (pieces : List Bytes) (i : Nat) : Part :=
  Part.ofPieces m.message.messageId m.message.messageType m.message.timestampNs pieces i

variable {m : Transfer} {pieces : List Bytes} {r : Reassembler} {d : Delivery} {win : Window}
  {call : Call}

theorem IsCut.check_of_owns (cut : m.IsCut pieces) (fits : m.size ≤ r.maxFragmentSize)
    (own : m.Owns d) : ∃ i, m.parts[i]? = some d.contents ∧ i < pieces.length ∧
      r.check d = .ok (m.partAt pieces i, m.key) := by
  obtain ⟨sender, fingerprint, among⟩ := own
  obtain ⟨i, place, below, parsed, limit⟩ := cut.parse_of_mem among
  have length : (d.contents.length : Int) ≤ r.maxFragmentSize := cut.sizes _ among ▸ fits
  refine ⟨i, place, below, Reassembler.check_of_parts length parsed limit ?_⟩
  rw [partAt, Part.messageId_ofPieces, sender, fingerprint, m.derived]

/-! ## Windows of a transfer -/

/-- Whether all calls of a window bring parts of the transfer. -/
def Fills (m : Transfer) (r : Reassembler) (win : Window) : Prop :=
  ∀ call ∈ win, m.Owns call.delivery ∧ r.check call.delivery = .ok (call.part, m.key)

theorem Fills.append (h : m.Fills r win) (call : Call) (own : m.Owns call.delivery)
    (checked : r.check call.delivery = .ok (call.part, m.key)) : m.Fills r (win ++ [call]) := by
  intro c hc
  rcases List.mem_append.mp hc with old | new
  · exact h c old
  · cases List.mem_singleton.mp new
    exact ⟨own, checked⟩

/-- A call that brings a part of the transfer has that part, and its bytes say which one. -/
theorem IsCut.part_of_owns (cut : m.IsCut pieces) (fits : m.size ≤ r.maxFragmentSize)
    (own : m.Owns call.delivery) (checked : r.check call.delivery = .ok (call.part, m.key)) :
    ∃ i, m.parts[i]? = some call.delivery.contents ∧ i < pieces.length ∧
      call.part = m.partAt pieces i := by
  obtain ⟨i, place, below, eq⟩ := cut.check_of_owns fits own
  rw [eq] at checked
  exact ⟨i, place, below, (Prod.mk.inj (Except.ok.inj checked)).1.symm⟩

theorem IsCut.index_eq_iff (cut : m.IsCut pieces) (fits : m.size ≤ r.maxFragmentSize)
    (own : m.Owns call.delivery) (checked : r.check call.delivery = .ok (call.part, m.key))
    {i : Nat} (hi : i < pieces.length) :
    call.part.index = i ↔ m.parts[i]? = some call.delivery.contents := by
  obtain ⟨j, place, _, part⟩ := cut.part_of_owns fits own checked
  constructor
  · intro index
    rw [part, partAt, Part.index_ofPieces, Int.natCast_inj] at index
    rw [← index, place]
  · intro here
    -- The same bytes are parsed once only, so that equal parts have equal indices.
    have inside : i < m.parts.length := cut.count.symm ▸ hi
    obtain ⟨parsed, _, _⟩ := Reassembler.check_eq_ok checked
    rw [List.getElem?_eq_getElem inside, Option.some.injEq] at here
    have again := cut.parsed i inside
    rw [here, parsed] at again
    rw [Except.ok.inj again, Part.index_ofPieces]

theorem Fills.declares (h : m.Fills r win) (cut : m.IsCut pieces)
    (fits : m.size ≤ r.maxFragmentSize) {n : Int} (declared : win.Declares n) :
    n = pieces.length := by
  obtain ⟨call, hc, p, first, rfl⟩ := declared
  obtain ⟨i, _, _, part⟩ := cut.part_of_owns fits (h call hc).1 (h call hc).2
  rw [first, partAt, Part.ofPieces] at part
  split at part
  · cases part
    rfl
  · cases part

theorem Fills.holds (h : m.Fills r win) (cut : m.IsCut pieces) (fits : m.size ≤ r.maxFragmentSize)
    {index : Int} (held : win.Holds index) : index < pieces.length := by
  obtain ⟨call, hc, rfl⟩ := held
  obtain ⟨i, _, below, part⟩ := cut.part_of_owns fits (h call hc).1 (h call hc).2
  rw [part, partAt, Part.index_ofPieces]
  omega

theorem Fills.admits (h : m.Fills r win) (cut : m.IsCut pieces) (fits : m.size ≤ r.maxFragmentSize)
    {i : Nat} (hi : i < pieces.length) : win.Admits (m.partAt pieces i) := by
  rw [partAt, Part.ofPieces]
  split
  · exact ⟨fun n declared => h.declares cut fits declared, fun index held => h.holds cut fits held⟩
  · intro n declared
    rw [h.declares cut fits declared]
    show (i : Int) < pieces.length
    omega

/-! ## Complete windows -/

/-- A window of the transfer is complete when it holds every part of it. -/
theorem Fills.isComplete_iff (h : m.Fills r win) (cut : m.IsCut pieces)
    (fits : m.size ≤ r.maxFragmentSize) :
    win.IsComplete ↔ ∀ bs ∈ m.parts, ∃ call ∈ win, call.delivery.contents = bs := by
  constructor
  · rintro ⟨n, declared, all⟩ bs among
    obtain ⟨i, hi, rfl⟩ := List.getElem_of_mem among
    have below : i < pieces.length := cut.count ▸ hi
    obtain ⟨call, hc, index⟩ := all i (by omega) (by rw [h.declares cut fits declared]; omega)
    have here := (cut.index_eq_iff fits (h call hc).1 (h call hc).2 below).mp index
    rw [List.getElem?_eq_getElem hi, Option.some.injEq] at here
    exact ⟨call, hc, here.symm⟩
  · intro all
    have held : ∀ i < pieces.length, ∃ call ∈ win, call.part = m.partAt pieces i := by
      intro i hi
      have inside : i < m.parts.length := cut.count.symm ▸ hi
      obtain ⟨call, hc, contents⟩ := all _ (List.getElem_mem inside)
      obtain ⟨parsed, _, _⟩ := Reassembler.check_eq_ok (h call hc).2
      rw [contents, cut.parsed i inside] at parsed
      exact ⟨call, hc, (Except.ok.inj parsed).symm⟩
    obtain ⟨first, hf, part⟩ := held 0 cut.bounds.1
    refine ⟨pieces.length, ⟨first, hf, _, part, rfl⟩, fun index nonneg below => ?_⟩
    obtain ⟨call, hc, eq⟩ := held index.toNat (by omega)
    refine ⟨call, hc, ?_⟩
    rw [eq, partAt, Part.index_ofPieces, Int.toNat_of_nonneg nonneg]

/-- What a window of the transfer holds under an index is the piece with that index. -/
theorem Fills.contents?_eq (h : m.Fills r win) (cut : m.IsCut pieces)
    (fits : m.size ≤ r.maxFragmentSize) {i : Nat} (held : win.Holds i) :
    win.contents? i = pieces[i]? := by
  have below := h.holds cut fits held
  obtain ⟨contents, found⟩ := Option.isSome_iff_exists.mp (Window.contents?_isSome_iff.mpr held)
  rw [found]
  obtain ⟨call, latest, rfl⟩ := Option.map_eq_some_iff.mp found
  obtain ⟨hc, index⟩ := List.mem_filter.mp (List.mem_of_getLast? latest)
  obtain ⟨j, _, inside, part⟩ := cut.part_of_owns fits (h call hc).1 (h call hc).2
  rw [part, partAt, Part.index_ofPieces, decide_eq_true_eq, Int.natCast_inj] at index
  rw [part, partAt, Part.contents_ofPieces, ← index, List.getElem?_eq_getElem inside]
  rfl

theorem Fills.payload_eq (h : m.Fills r win) (cut : m.IsCut pieces)
    (fits : m.size ≤ r.maxFragmentSize) (complete : win.IsComplete) :
    win.payload pieces.length = m.message.payload := by
  obtain ⟨n, declared, all⟩ := complete
  have each : ∀ i < pieces.length, (win.contents? i).getD [] = (pieces[i]?).getD [] := by
    intro i hi
    rw [h.contents?_eq cut fits (all i (by omega) (by rw [h.declares cut fits declared]; omega))]
  rw [Window.payload, Int.toNat_natCast, ← cut.payload, List.flatMap_def]
  congr 1
  refine List.ext_getElem (by simp) fun i hi _ => ?_
  rw [List.length_map, List.length_range] at hi
  rw [List.getElem_map, List.getElem_range, each i hi, List.getElem?_eq_getElem hi]
  rfl

/-- The first parts of a window of the transfer say what the message says. -/
theorem Fills.heading (h : m.Fills r win) (cut : m.IsCut pieces) (fits : m.size ≤ r.maxFragmentSize)
    {latest : Call} {p : FirstPart} (heading : win.heading? = some (latest, p)) :
    p.numParts = pieces.length ∧ p.messageType = m.message.messageType ∧
      p.timestampNs = m.message.timestampNs := by
  obtain ⟨call, hc, first⟩ := List.mem_filterMap.mp (List.mem_of_getLast? heading)
  obtain ⟨i, _, _, part⟩ := cut.part_of_owns fits (h call hc).1 (h call hc).2
  rw [Call.first?, part, partAt, Part.ofPieces] at first
  split at first
  next q eq =>
    cases first
    split at eq
    · cases eq
      exact ⟨rfl, rfl, rfl⟩
    · cases eq
  next => cases first

/-- The latest delivery of the part that carries the heading. -/
def latestFirst? (m : Transfer) (deliveries : List Delivery) : Option Delivery :=
  (deliveries.filter fun d => m.parts.head? = some d.contents).getLast?

theorem Fills.latestFirst?_eq (h : m.Fills r win) (cut : m.IsCut pieces)
    (fits : m.size ≤ r.maxFragmentSize) {latest : Call} {p : FirstPart}
    (heading : win.heading? = some (latest, p)) :
    m.latestFirst? (win.map Call.delivery) = some latest.delivery := by
  have firsts : (win.map Call.delivery).filter (fun d => m.parts.head? = some d.contents)
      = (win.filterMap Call.first?).map (·.1.delivery) := by
    clear heading
    induction win with
    | nil => rfl
    | cons call win ih =>
      have own := h call List.mem_cons_self
      have rest := ih fun c hc => h c (List.mem_cons_of_mem _ hc)
      have index := cut.index_eq_iff fits own.1 own.2 cut.bounds.1
      obtain ⟨i, _, _, part⟩ := cut.part_of_owns fits own.1 own.2
      rw [← List.head?_eq_getElem?] at index
      rw [List.map_cons, List.filter_cons, List.filterMap_cons, rest]
      by_cases zero : call.part.index = (0 : Nat)
      · rw [if_pos (decide_eq_true (index.mp zero))]
        rw [part, partAt, Part.index_ofPieces, Int.natCast_inj] at zero
        rw [Call.first?, part, partAt, Part.ofPieces, if_pos zero]
        rfl
      · rw [if_neg (by rw [decide_eq_true_eq]; exact mt index.mpr zero)]
        rw [part, partAt, Part.index_ofPieces, Int.natCast_inj] at zero
        rw [Call.first?, part, partAt, Part.ofPieces, if_neg zero]
  rw [latestFirst?, firsts, List.getLast?_map, ← Window.heading?, heading]
  rfl

end Transfer

end PartRelay.Reassembly
