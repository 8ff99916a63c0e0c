import Mathlib.Data.List.TakeWhile
import PartRelay.EventLog
import PartRelay.Proofs.Json.Levels
import PartRelay.Proofs.Json.ReadBack
import PartRelay.Proofs.Text.Fields

/-!
# Lines of a log

What events leave in a log, line by line, and what is read from a line: the common fields with the
event's own laid over them. Lines are printable, so that the text of a log falls apart into them
again.
-/

namespace PartRelay

/-! ## Objects of events -/

namespace Json

theorem fieldsWritable_append (fields more : List (Text × Json)) :
    fieldsWritable (fields ++ more) = (fieldsWritable fields && fieldsWritable more) := by
  induction fields with
  | nil => rfl
  | cons field fields ih =>
    obtain ⟨key, value⟩ := field
    rw [List.cons_append, fieldsWritable, fieldsWritable, ih, Bool.and_assoc]

theorem fieldsWritable_set {fields : Table Text Json} {key : Text} {value : Json}
    (h : fieldsWritable fields = true) (hv : value.isWritable = true) :
    fieldsWritable (fields.set key value) = true := by
  induction fields with
  | nil => simp [Table.set, fieldsWritable, hv]
  | cons field fields ih =>
    obtain ⟨k, v⟩ := field
    rw [fieldsWritable, Bool.and_eq_true] at h
    rw [Table.set]
    split
    · simp [fieldsWritable, hv, h.2]
    · simp [fieldsWritable, h.1, ih h.2]

theorem fieldsWritable_update {fields more : Table Text Json} (h : fieldsWritable fields = true)
    (hm : fieldsWritable more = true) : fieldsWritable (fields.update more) = true := by
  induction more generalizing fields with
  | nil => exact h
  | cons field more ih =>
    obtain ⟨key, value⟩ := field
    rw [fieldsWritable, Bool.and_eq_true] at hm
    exact ih (fieldsWritable_set h hm.1) hm.2

/-- Fields are written together or not at all. -/
theorem fieldsWritable_of_get? {fields : Table Text Json} {key : Text} {value : Json}
    (h : fields.get? key = some value) (unwritable : value.isWritable = false) :
    fieldsWritable fields = false := by
  induction fields with
  | nil => cases h
  | cons field fields ih =>
    obtain ⟨k, v⟩ := field
    rw [fieldsWritable]
    by_cases same : k = key
    · have here : v = value := by simpa [Table.get?, same] using h
      rw [here, unwritable, Bool.false_and]
    · have later : Table.get? fields key = some value := by simpa [Table.get?, same] using h
      rw [ih later, Bool.and_false]

theorem fieldsReadable_set {fields : Table Text Json} {key : Text} {value : Json}
    (h : FieldsReadable fields) (hk : key.IsScalar) (hv : value.IsReadable) :
    FieldsReadable (fields.set key value) := by
  induction fields with
  | nil => exact ⟨hk, hv, trivial⟩
  | cons field fields ih =>
    obtain ⟨k, v⟩ := field
    obtain ⟨scalar, readable, others⟩ := h
    rw [Table.set]
    split
    · exact ⟨scalar, hv, others⟩
    · exact ⟨scalar, readable, ih others⟩

theorem fieldsReadable_update {fields more : Table Text Json} (h : FieldsReadable fields)
    (hm : FieldsReadable more) : FieldsReadable (fields.update more) := by
  induction more generalizing fields with
  | nil => exact h
  | cons field more ih =>
    obtain ⟨key, value⟩ := field
    exact ih (fieldsReadable_set h hm.1 hm.2.1) hm.2.2

end Json

/-- An event that any log takes. -/
def Event.IsWritable (e : Event) : Prop := Json.fieldsWritable e.fields = true

/-- How deep the fields of an event are nested. -/
def Event.depth (e : Event) : Nat := Json.fieldsDepth e.fields

/-- An event whose fields are read back. -/
def Event.IsReadable (e : Event) : Prop := Json.FieldsReadable e.fields

namespace EventLog

variable {log : EventLog} {now : Int} {e : Event} {events : List Event}

/-! ## One line -/

/-- Whether the line of an event can be written. -/
def writes (log : EventLog) (now : Int) (e : Event) : Bool :=
  (Json.object (log.object now e)).isWritable

/-- The line of an event without its end. -/
def lineText (log : EventLog) (now : Int) (e : Event) : Text :=
  (Json.object (log.object now e)).render

theorem writes_of_isWritable (log : EventLog) (written : Integer.isWritable now = true)
    (h : e.IsWritable) : log.writes now e = true := by
  have common : Json.fieldsWritable [("ts_ms", .int now), ("run_id", .string log.runId),
      ("event", .string e.name), ("role", .string log.role)] = true := by
    simp [Json.fieldsWritable, Json.isWritable, written]
  exact Json.fieldsWritable_update common h

/-- A field that cannot be written keeps the line of its event from being written. -/
theorem writes_of_get? {key : Text} {n : Int}
    (h : Table.get? (log.object now e) key = some (.int n))
    (long : Integer.isWritable n = false) : log.writes now e = false :=
  Json.fieldsWritable_of_get? h long

/-- The keys that every line has. -/
theorem commonKeys_isScalar : (Text.ofString "ts_ms").IsScalar ∧
    (Text.ofString "run_id").IsScalar ∧ (Text.ofString "event").IsScalar ∧
    (Text.ofString "role").IsScalar := by
  refine ⟨?_, ?_, ?_, ?_⟩ <;> (rw [Text.IsScalar]; decide)

theorem isReadable_object (log : EventLog) (now : Int) (h : e.IsReadable) :
    (Json.object (log.object now e)).IsReadable := by
  obtain ⟨time, run, event, role⟩ := commonKeys_isScalar
  have common : Json.FieldsReadable [("ts_ms", .int now), ("run_id", .string log.runId),
      ("event", .string e.name), ("role", .string log.role)] :=
    ⟨time, trivial, run, trivial, event, trivial, role, trivial, trivial⟩
  have distinct : (Table.keys [(Text.ofString "ts_ms", Json.int now),
      ("run_id", .string log.runId), ("event", .string e.name),
      ("role", .string log.role)]).Nodup :=
    show [Text.ofString "ts_ms", "run_id", "event", "role"].Nodup by decide
  exact ⟨Table.nodup_keys_update distinct e.fields, Json.fieldsReadable_update common h⟩

/-- What is read from a line are the fields of its event. -/
theorem read_lineText (h : e.IsReadable) (written : log.writes now e = true) :
    Json.read (log.lineText now e) = .ok (Json.object (log.object now e)).join :=
  Json.read_render_join (log.isReadable_object now h) written

/-- A line is not empty, and there is no line end in it. -/
theorem lineText_isLine (log : EventLog) (now : Int) (h : e.IsReadable) :
    log.lineText now e ≠ [] ∧ CodePoint.ofChar '\n' ∉ log.lineText now e := by
  have readable := log.isReadable_object now h
  constructor
  · exact Json.render_ne_nil readable
  · intro feed
    have printable := Json.isPrintableAscii_render _ readable _ feed
    exact absurd printable (by decide)

/-! ## Appending -/

/-- The log with a text behind its own. -/
def extend (log : EventLog) (t : Text) : EventLog := { log with text := log.text ++ t }

/-- Lines as a text, each with its end. -/
def textOf (lines : List Text) : Text := lines.flatMap (· ++ "\n")

/-- The lines that events leave: those up to the first that cannot be written. -/
def linesOf (log : EventLog) (now : Int) (events : List Event) : List Text :=
  (events.takeWhile (log.writes now)).map (log.lineText now)

/-- An event that cannot be written hides itself and those behind it. -/
theorem linesOf_cons_of_not_writes (h : log.writes now e = false) :
    log.linesOf now (e :: events) = [] := by
  rw [linesOf, List.takeWhile_cons_of_neg (by simp [h])]
  rfl

theorem linesOf_cons_of_writes (h : log.writes now e = true) :
    log.linesOf now (e :: events) = log.lineText now e :: log.linesOf now events := by
  rw [linesOf, List.takeWhile_cons_of_pos h]
  rfl

theorem linesOf_of_all (h : events.all (log.writes now) = true) :
    log.linesOf now events = events.map (log.lineText now) := by
  rw [linesOf, List.takeWhile_eq_self_iff.mpr (List.all_eq_true.mp h)]

/-- An event of no more levels than there may be has a line just where its numbers can be
written. -/
theorem line_eq (shallow : e.depth ≤ log.levels) :
    log.line now e = if log.writes now e then .ok (log.lineText now e ++ "\n")
      else .error (.number .tooLong) := by
  have common : Json.fieldsDepth (log.object now e) ≤ max 0 e.depth :=
    Json.fieldsDepth_update_le _ e.fields
  have deep : (Json.object (log.object now e)).depth ≤ log.levels + 1 := by
    rw [Json.depth]
    omega
  rw [line, Json.renderWithin?_of_depth_le deep, writes, lineText]
  cases (Json.object (log.object now e)).isWritable <;> rfl

theorem append_eq (shallow : e.depth ≤ log.levels) :
    log.append now e = if log.writes now e then
        .ok (if log.closed then log else log.extend (log.lineText now e ++ "\n"))
      else .error (.number .tooLong) := by
  rw [append, line_eq shallow]
  cases log.writes now e <;> rfl

/-- An event with a field that is nested too deep is not appended, whatever else it has that can be
written. -/
theorem append_of_lt_depth {key : Text} {value : Json} (written : log.writes now e = true)
    (h : Table.get? (log.object now e) key = some value) (deep : log.levels < value.depth) :
    log.append now e = .error .tooDeep := by
  have below : log.levels + 1 < (Json.object (log.object now e)).depth := by
    have inside := Json.depth_le_fieldsDepth h
    rw [Json.depth]
    omega
  rw [append, line, Json.renderWithin?_of_lt_depth written below]
  rfl

theorem append_ok (log : EventLog) (written : Integer.isWritable now = true) (h : e.IsWritable)
    (shallow : e.depth ≤ log.levels) : ∃ log', log.append now e = .ok log' := by
  rw [append_eq shallow, log.writes_of_isWritable written h]
  exact ⟨_, rfl⟩

/-- What is appended to a log leaves its levels as they are. -/
theorem levels_of_append {log' : EventLog} (h : log.append now e = .ok log') :
    log'.levels = log.levels := by
  rw [append] at h
  split at h
  · cases h
  next line made =>
    cases h
    split <;> rfl

theorem appendAll_ok (log : EventLog) (written : Integer.isWritable now = true)
    (h : ∀ e ∈ events, e.IsWritable) (shallow : ∀ e ∈ events, e.depth ≤ log.levels) :
    ∃ log', log.appendAll now events = (.ok (), log') := by
  induction events generalizing log with
  | nil => exact ⟨log, rfl⟩
  | cons e events ih =>
    obtain ⟨here, later⟩ := List.forall_mem_cons.mp shallow
    obtain ⟨next, appended⟩ := log.append_ok written (h e List.mem_cons_self) here
    rw [← levels_of_append appended] at later
    obtain ⟨log', rest⟩ := ih next (fun e' he => h e' (List.mem_cons_of_mem _ he)) later
    refine ⟨log', ?_⟩
    simp only [appendAll, appended, rest]

theorem append_of_writes (opened : log.closed = false) (shallow : e.depth ≤ log.levels)
    (written : log.writes now e = true) :
    log.append now e = .ok (log.extend (log.lineText now e ++ "\n")) := by
  simp [append_eq shallow, written, opened]

/-- Events are appended to an open log line by line, and the first that cannot be written is the
last to be tried. -/
theorem appendAll_eq (opened : log.closed = false) (now : Int) (events : List Event)
    (shallow : ∀ e ∈ events, e.depth ≤ log.levels) :
    log.appendAll now events =
      (if events.all (log.writes now) then .ok () else .error (.number .tooLong),
        log.extend (textOf (log.linesOf now events))) := by
  induction events generalizing log with
  | nil => simp [appendAll, linesOf, textOf, extend]
  | cons e events ih =>
    obtain ⟨here, later⟩ := List.forall_mem_cons.mp shallow
    cases written : log.writes now e with
    | false =>
      have refused : log.append now e = .error (.number .tooLong) := by
        rw [append_eq here, written]
        rfl
      simp [appendAll, refused, linesOf, textOf, extend, written]
    | true =>
      have appended := append_of_writes opened here written
      -- The lines do not depend on what the log holds already.
      have same : (log.extend (log.lineText now e ++ "\n")).writes = log.writes := rfl
      have rest := @ih (log.extend (log.lineText now e ++ "\n")) opened later
      rw [same] at rest
      simp only [appendAll, appended, rest, List.all_cons, written, Bool.true_and]
      simp [linesOf, written, textOf, extend]
      rfl

/-! ## Falling apart into lines -/

theorem textOf_cons (line : Text) (lines : List Text) :
    textOf (line :: lines) = line ++ "\n" ++ textOf lines := List.flatMap_cons ..

/-- A text of lines has nothing behind the end of the last one. -/
theorem splitOn_textOf {ls : List Text} (h : ∀ l ∈ ls, CodePoint.ofChar '\n' ∉ l) :
    Text.splitOn '\n' (textOf ls) = ls ++ [[]] := by
  induction ls with
  | nil => rfl
  | cons l ls ih =>
    have rest := ih fun l' member => h l' (List.mem_cons_of_mem _ member)
    have ended : textOf (l :: ls) = l ++ CodePoint.ofChar '\n' :: textOf ls := by
      simp [textOf_cons, Text.ofString]
    rw [ended, Text.splitOn_append_cons (h l List.mem_cons_self), rest, List.cons_append]

/-- Lines that have been put into a text are found in it again. -/
theorem lines_textOf {ls : List Text} (h : ∀ l ∈ ls, l ≠ [] ∧ CodePoint.ofChar '\n' ∉ l) :
    lines (textOf ls) = ls := by
  have nonempty : ls.filter (!·.isEmpty) = ls := by
    refine List.filter_eq_self.mpr fun l member => ?_
    simpa using (h l member).1
  rw [lines, splitOn_textOf fun l member => (h l member).2, List.filter_append, nonempty]
  exact List.append_nil ls

end EventLog

end PartRelay
