import Mathlib.Data.List.Forall2
import PartRelay.Proofs.EventLog
import PartRelay.Proofs.Files.Directory
import PartRelay.Proofs.Files.Names
import PartRelay.Proofs.Json.Lines

/-!
# Log files

Whatever is asked of a log once its file is open, the file goes on with one line for each event up
to the first close, in order, and every line is read as the common fields with those of its event
laid over them. Main statement: `create_run`.
-/

namespace PartRelay

/-! ## Calls -/

/-- An event that is read back as it was logged: with fields of characters and of numbers that can
be written, without fractions, and with no key twice. -/
structure Event.IsPlain (e : Event) : Prop where
  /-- The name may hold surrogates, but no high one before a low one. -/
  name : Json.joinText e.name = e.name
  fields : Json.FieldsPlain e.fields
  distinct : (Table.keys e.fields).Nodup
  writable : e.IsWritable

namespace EventLog

/-- What is asked of a log. -/
inductive Call where
  | event (e : Event)
  | serverStart (address : Text) (maxFragmentSize : Int) (networkPath : Text)
  | close

/-- The log after one call. -/
def call (log : EventLog) (now : Int) : Call → Except Json.WriteError EventLog
  | .event e => log.append now e
  | .serverStart address size path => log.append now (EventLog.serverStart address size path)
  | .close => .ok log.close

/-- The log after calls, each at its time. -/
def run (log : EventLog) : List (Int × Call) → Except Json.WriteError EventLog
  | [] => .ok log
  | (now, c) :: calls =>
    match log.call now c with
    | .error e => .error e
    | .ok log => log.run calls

/-- The event that a call is to log, if any. That of a start names the address, the size and the
path that the server has been started with. -/
def Call.event? : Call → Option Event
  | .event e => some e
  | .serverStart address size path => some
      { name := "server_start"
        fields := [("addr", .string address), ("max_fragment_size", .int size),
          ("ndf_path", .string path)] }
  | .close => none

/-- The events up to the first close, with their times. -/
def logged : List (Int × Call) → List (Int × Event)
  | [] => []
  | (now, c) :: calls =>
    match c.event? with
    | some e => (now, e) :: logged calls
    | none => []

/-- A call whose event, if it has one, is plain, comes at a time that can be written, and has no
more than so many levels. -/
def IsLoggable (levels : Nat) (entry : Int × Call) : Prop :=
  ∀ e, entry.2.event? = some e →
    Integer.isWritable entry.1 = true ∧ e.IsPlain ∧ e.depth ≤ levels

variable {log log' : EventLog} {levels : Nat} {now : Int} {e : Event}
  {calls more : List (Int × Call)}

/-! ## Runs -/

theorem isLoggable_close (now : Int) : IsLoggable levels (now, .close) := by
  intro e logs
  cases logs

theorem isLoggable_of_event? {c : Call} (logs : c.event? = some e)
    (time : Integer.isWritable now = true) (plain : e.IsPlain) (shallow : e.depth ≤ levels) :
    IsLoggable levels (now, c) := by
  intro e' logs'
  rw [logs, Option.some.injEq] at logs'
  exact logs' ▸ ⟨time, plain, shallow⟩

theorem isPlain_of_mem_logged (loggable : ∀ entry ∈ calls, IsLoggable levels entry) :
    ∀ entry ∈ logged calls, Integer.isWritable entry.1 = true ∧ entry.2.IsPlain := by
  induction calls with
  | nil => exact List.forall_mem_nil _
  | cons entry calls ih =>
    obtain ⟨now, c⟩ := entry
    obtain ⟨first, others⟩ := List.forall_mem_cons.mp loggable
    rw [logged]
    split
    next e logs =>
      obtain ⟨time, plain, _⟩ := first e logs
      exact List.forall_mem_cons.mpr ⟨⟨time, plain⟩, ih others⟩
    next => exact List.forall_mem_nil _

theorem isLoggable_serverStart {address networkPath : Text} {size : Int} (ha : address.IsScalar)
    (hp : networkPath.IsScalar) (hs : Integer.isWritable size = true)
    (time : Integer.isWritable now = true) :
    IsLoggable levels (now, .serverStart address size networkPath) := by
  have keys : ∀ key ∈ [Text.ofString "server_start", "addr", "max_fragment_size", "ndf_path"],
      key.IsScalar := by
    simp only [Text.IsScalar]
    decide
  simp only [List.forall_mem_cons] at keys
  obtain ⟨name, addr, max, path, _⟩ := keys
  refine isLoggable_of_event? rfl time ⟨Json.joinText_of_isScalar name,
    ⟨addr, ha, max, trivial, path, hp, trivial⟩, ?_, ?_⟩ (Nat.zero_le levels)
  · show [Text.ofString "addr", "max_fragment_size", "ndf_path"].Nodup
    decide
  · simp [Event.IsWritable, Json.fieldsWritable, Json.isWritable, hs]

/-- What comes behind a close is not logged. -/
theorem logged_append_close (now : Int) (calls more : List (Int × Call)) :
    logged (calls ++ (now, .close) :: more) = logged calls := by
  induction calls with
  | nil => rfl
  | cons entry calls ih =>
    rw [List.cons_append, logged, logged, ih]

/-- A call appends the event that it is to log. -/
theorem call_of_event? {c : Call} (logs : c.event? = some e) :
    log.call now c = log.append now e := by
  cases c <;> cases logs <;> rfl

theorem call_of_no_event {c : Call} (logs : c.event? = none) : log.call now c = .ok log.close := by
  cases c <;> cases logs
  rfl

/-- One call on an open log adds the line of its event or closes the log. -/
theorem call_of_open (opened : log.closed = false) {c : Call}
    (loggable : IsLoggable log.levels (now, c)) :
    log.call now c = .ok (match c.event? with
      | some e => log.extend (log.lineText now e ++ "\n")
      | none => log.close) := by
  cases logs : c.event? with
  | none => exact call_of_no_event logs
  | some e =>
    obtain ⟨time, plain, shallow⟩ := loggable e logs
    rw [call_of_event? logs]
    exact append_of_writes opened shallow (log.writes_of_isWritable time plain.writable)

/-- One call on a closed log does nothing. -/
theorem call_of_closed (closed : log.closed = true) {c : Call}
    (loggable : IsLoggable log.levels (now, c)) : log.call now c = .ok log := by
  cases logs : c.event? with
  | none =>
    rw [call_of_no_event logs]
    cases log
    cases closed
    rfl
  | some e =>
    obtain ⟨time, plain, shallow⟩ := loggable e logs
    rw [call_of_event? logs, append_eq shallow, log.writes_of_isWritable time plain.writable]
    simp [closed]

theorem run_of_closed (closed : log.closed = true)
    (loggable : ∀ entry ∈ calls, IsLoggable log.levels entry) : log.run calls = .ok log := by
  induction calls with
  | nil => rfl
  | cons entry calls ih =>
    obtain ⟨first, others⟩ := List.forall_mem_cons.mp loggable
    rw [run, call_of_closed closed first]
    exact ih others

/-- The lines of events, each with its time. -/
def linesAt (log : EventLog) (entries : List (Int × Event)) : List Text :=
  entries.map fun entry => log.lineText entry.1 entry.2

/-- Calls on an open log leave the lines of the events up to the first close. -/
theorem run_of_open (opened : log.closed = false)
    (loggable : ∀ entry ∈ calls, IsLoggable log.levels entry) :
    ∃ log', log.run calls = .ok log' ∧
      log'.text = log.text ++ textOf (log.linesAt (logged calls)) := by
  induction calls generalizing log with
  | nil => exact ⟨log, rfl, (List.append_nil _).symm⟩
  | cons entry calls ih =>
    obtain ⟨now, c⟩ := entry
    obtain ⟨first, others⟩ := List.forall_mem_cons.mp loggable
    rw [run, call_of_open opened first, logged]
    cases logs : c.event? with
    | none =>
      -- From the close on the log is as it is.
      exact ⟨log.close, run_of_closed rfl others, (List.append_nil _).symm⟩
    | some e =>
      obtain ⟨log', ran, text⟩ := @ih (log.extend (log.lineText now e ++ "\n")) opened others
      refine ⟨log', ran, ?_⟩
      rw [text, linesAt, linesAt, List.map_cons, textOf_cons, ← List.append_assoc]
      rfl

/-- Calls behind a close leave nothing more. -/
theorem run_append_close (opened : log.closed = false)
    (loggable : ∀ entry ∈ calls, IsLoggable log.levels entry)
    (later : ∀ entry ∈ more, IsLoggable log.levels entry)
    (ran : log.run calls = .ok log') (now : Int) :
    ∃ after, log.run (calls ++ (now, .close) :: more) = .ok after ∧ after.text = log'.text := by
  have all : ∀ entry ∈ calls ++ (now, .close) :: more, IsLoggable log.levels entry := by
    intro entry among
    rcases List.mem_append.mp among with before | behind
    · exact loggable entry before
    · exact List.forall_mem_cons.mpr ⟨isLoggable_close now, later⟩ entry behind
  obtain ⟨_, same, text⟩ := run_of_open opened loggable
  rw [ran] at same
  cases same
  obtain ⟨after, ranAll, textAll⟩ := run_of_open opened all
  refine ⟨after, ranAll, ?_⟩
  rw [textAll, text, logged_append_close]

/-! ## Lines read back -/

/-- The fields that every line has. -/
def common (runId role : Text) (entry : Int × Event) : Table Text Json :=
  [("ts_ms", .int entry.1), ("run_id", .string runId), ("event", .string entry.2.name),
   ("role", .string role)]

/-- A line that tells of an event: printable, and read as the common fields with those of the event
laid over them. -/
structure Tells (runId role line : Text) (entry : Int × Event) : Prop where
  nonempty : line ≠ []
  printable : line.IsPrintableAscii
  read : Json.read line = .ok (.object (Table.update (common runId role entry) entry.2.fields))
  field : ∀ key, (Table.update (common runId role entry) entry.2.fields).get? key =
    (Table.get? entry.2.fields key).or (Table.get? (common runId role entry) key)

theorem join_object (sameRun : Json.joinText log.runId = log.runId)
    (sameRole : Json.joinText log.role = log.role) (now : Int) (plain : e.IsPlain) :
    (Json.object (log.object now e)).join = .object (log.object now e) := by
  have base : ∀ field ∈ common log.runId log.role (now, e), field.2.join = field.2 := by
    rw [common]
    simp only [List.forall_mem_cons]
    exact ⟨rfl, congrArg Json.string sameRun, congrArg Json.string plain.name,
      congrArg Json.string sameRole, List.forall_mem_nil _⟩
  refine congrArg Json.object (Json.joinFields_eq_self fun field among => ?_)
  rcases Table.mem_of_mem_update among with old | own
  · exact base field old
  · exact Json.join_of_isPlain (Json.fieldsPlain_iff.mp plain.fields field own).2

/-- The line of a plain event tells of it. -/
theorem tells_lineText (sameRun : Json.joinText log.runId = log.runId)
    (sameRole : Json.joinText log.role = log.role) (time : Integer.isWritable now = true)
    (plain : e.IsPlain) : Tells log.runId log.role (log.lineText now e) (now, e) where
  nonempty := (log.lineText_isLine now plain.fields.fieldsReadable).1
  printable :=
    Json.isPrintableAscii_render _ (log.isReadable_object now plain.fields.fieldsReadable)
  read := by
    rw [read_lineText plain.fields.fieldsReadable (log.writes_of_isWritable time plain.writable),
      join_object sameRun sameRole now plain]
    rfl
  field := by
    intro key
    rw [Table.get?_update, Table.get?_reverse plain.distinct]

/-- What calls leave in an open log falls apart into one line for each event, which tells of it. -/
theorem run_tells (opened : log.closed = false) (sameRun : Json.joinText log.runId = log.runId)
    (sameRole : Json.joinText log.role = log.role)
    (loggable : ∀ entry ∈ calls, IsLoggable log.levels entry) :
    ∃ log' lines, log.run calls = .ok log' ∧ log'.text = log.text ++ textOf lines ∧
      (textOf lines).splitOn '\n' = lines ++ [[]] ∧
      List.Forall₂ (Tells log.runId log.role) lines (logged calls) := by
  obtain ⟨log', ran, text⟩ := run_of_open opened loggable
  have plain := isPlain_of_mem_logged loggable
  refine ⟨log', log.linesAt (logged calls), ran, text, splitOn_textOf fun line among => ?_, ?_⟩
  · obtain ⟨entry, listed, rfl⟩ := List.mem_map.mp among
    exact (log.lineText_isLine entry.1 (plain entry listed).2.fields.fieldsReadable).2
  · rw [linesAt, List.forall₂_map_left_iff, List.forall₂_same]
    intro entry listed
    exact tells_lineText sameRun sameRole (plain entry listed).1 (plain entry listed).2

end EventLog

/-! ## Files -/

namespace LogFile

open EventLog

variable {levels : Nat} {d opened : Directory} {directory : Path} {runId role : Text} {f : LogFile}

theorem create_eq_ok (h : create levels d directory runId role = .ok (f, opened)) :
    f.log = { levels, runId, role } ∧ f.path = pathOf directory runId role ∧
      ∃ made : Directory, made.openToAppend f.path = .ok (f.before, opened) := by
  rw [create] at h
  split at h
  · cases h
  next made directories =>
    split at h
    · cases h
    next before appended file =>
      cases h
      exact ⟨rfl, rfl, made, file⟩

/-- The names in the path of a log whose file is open can be read back from a line. -/
theorem joinText_of_create (h : create levels d directory runId role = .ok (f, opened)) {t : Text}
    (named : t ∈ [runId, Text.ofString "_", role, Text.ofString ".jsonl"]) :
    Json.joinText t = t := by
  obtain ⟨_, path, made, appended⟩ := create_eq_ok h
  obtain ⟨place, found, _⟩ := Directory.openToAppend_eq_ok appended
  have fine := Directory.nameError?_of_placeOf found
  apply Json.joinText_of_not_isHigh
  intro c among
  have inside : c ∈ Text.join [runId, Text.ofString "_", role, Text.ofString ".jsonl"] :=
    List.mem_flatten.mpr ⟨t, named, among⟩
  by_cases slash : c = CodePoint.ofChar '/'
  · rw [slash]
    decide
  · by_cases dot : c = CodePoint.ofChar '.'
    · rw [dot]
      decide
    · apply Path.not_isHigh_of_nameError? fine
      rw [path, pathOf]
      exact Path.mem_text_append directory inside slash dot

/-- A log whose file is open takes any calls whose events are plain and not nested too deep. What
the file held before is followed by a line for each event up to the first close, in order, that
tells of it. From then on calls leave the file as it is. -/
theorem create_run (made : create levels d directory runId role = .ok (f, opened))
    {calls : List (Int × Call)} (loggable : ∀ entry ∈ calls, IsLoggable levels entry) :
    opened.read f.path = .ok f.before ∧
    ∃ (log : EventLog) (written : Directory) (lines : List Text),
      f.log.run calls = .ok log ∧ save { f with log } opened = .ok written ∧
      written.read f.path = .ok (f.before ++ Utf8.write log.text) ∧
      log.text.splitOn '\n' = lines ++ [[]] ∧
      List.Forall₂ (Tells runId role) lines (logged calls) ∧
      ∀ (now : Int) (more : List (Int × Call)), (∀ entry ∈ more, IsLoggable levels entry) →
        ∃ after, f.log.run (calls ++ (now, .close) :: more) = .ok after ∧
          after.text = log.text ∧ save { f with log := after } opened = .ok written := by
  obtain ⟨fresh, _, _, appended⟩ := create_eq_ok made
  -- The names of run and role stand in the path of the file, which has been looked up.
  have sameRun : Json.joinText runId = runId := joinText_of_create made (by simp)
  have sameRole : Json.joinText role = role := joinText_of_create made (by simp)
  obtain ⟨log, lines, ran, text, split, tells⟩ :=
    @run_tells { levels, runId, role } calls rfl sameRun sameRole loggable
  obtain ⟨written, saved⟩ := Directory.write_openToAppend appended (f.before ++ Utf8.write log.text)
  rw [fresh]
  refine ⟨Directory.read_openToAppend appended, log, written, lines, ran, saved,
    Directory.read_write saved, text ▸ split, tells, fun now more later => ?_⟩
  obtain ⟨after, ranAll, same⟩ := run_append_close rfl loggable later ran now
  refine ⟨after, ranAll, same, ?_⟩
  rw [save, content, same]
  exact saved

/-- An event with line ends in its name and in a field that is laid over the common ones. -/
def awkwardEvent : Event where
  name := "part\naccepted"
  fields := [("event", .string "\r\n\u2028\x00"), ("n", .array [.int (-3), .null])]

/-- A start, an event, and one that comes too late. -/
def deskCalls : List (Int × Call) :=
  [(10, .serverStart ":8080" 414 "ndf.json"), (15, .event awkwardEvent), (16, .close),
    (17, .event awkwardEvent)]

theorem create_run_desk :
    ∃ f opened, create 1 [] (.ofText "logs") "run" "server" = .ok (f, opened) ∧
      (∀ entry ∈ deskCalls, IsLoggable 1 entry) ∧
      ∃ log written lines, f.log.run deskCalls = .ok log ∧
        save { f with log } opened = .ok written ∧
        written.read f.path = .ok (f.before ++ Utf8.write log.text) ∧
        log.text.splitOn '\n' = lines ++ [[]] ∧ lines.length = 2 := by
  have texts : ∀ t ∈ [Text.ofString ":8080", "ndf.json", "part\naccepted", "event",
      "\r\n\u2028\x00", "n"], t.IsScalar := by
    simp only [Text.IsScalar]
    decide
  simp only [List.forall_mem_cons] at texts
  obtain ⟨address, path, name, event, separators, n, _⟩ := texts
  have awkward : awkwardEvent.IsPlain := by
    refine ⟨Json.joinText_of_isScalar name,
      ⟨event, separators, n, ⟨trivial, trivial, trivial⟩, trivial⟩, by decide, ?_⟩
    simp [Event.IsWritable, awkwardEvent, Json.fieldsWritable, Json.isWritable,
      Json.areWritable, Integer.isWritable_of_natAbs_lt]
  have loggable : ∀ entry ∈ deskCalls, IsLoggable 1 entry := by
    rw [deskCalls]
    simp only [List.forall_mem_cons]
    refine ⟨?_, ?_, isLoggable_close 16, ?_, List.forall_mem_nil _⟩
    · exact isLoggable_serverStart address path
        (Integer.isWritable_of_natAbs_lt (n := 414) (by decide))
        (Integer.isWritable_of_natAbs_lt (by decide))
    · exact isLoggable_of_event? rfl (Integer.isWritable_of_natAbs_lt (by decide)) awkward
        (Nat.le_refl 1)
    · exact isLoggable_of_event? rfl (Integer.isWritable_of_natAbs_lt (by decide)) awkward
        (Nat.le_refl 1)
  obtain ⟨f, opened, made⟩ :
    ∃ f opened, create 1 [] (.ofText "logs") "run" "server" = .ok (f, opened) := ⟨_, _, rfl⟩
  obtain ⟨_, log, written, lines, ran, saved, held, split, tells, _⟩ := create_run made loggable
  exact ⟨f, opened, made, loggable, log, written, lines, ran, saved, held, split,
    tells.length_eq⟩

/-- Arrays in one another, so many of them. -/
def nest : Nat → Json
  | 0 => .null
  | n + 1 => .array [nest n]

theorem depth_nest (n : Nat) : (nest n).depth = n := by
  induction n with
  | zero => rfl
  | succ n ih => simp [nest, Json.depth, Json.itemsDepth, ih]

theorem isWritable_nest (n : Nat) : (nest n).isWritable = true := by
  induction n with
  | zero => rfl
  | succ n ih => simp [nest, Json.isWritable, Json.areWritable, ih]

/-- An event with a field of so many levels. -/
def deepEvent (levels : Nat) : Event where
  name := "deep"
  fields := [("field", nest levels)]

/-- An event without fields of its own. -/
def bareEvent : Event where
  name := "bare"

/-- Events that a log does not take: one at a time that cannot be written, and one that is nested a
level too deep. -/
theorem create_run_stops :
    ∃ f opened, create 1000 [] (.ofText "logs") "run" "server" = .ok (f, opened) ∧
      f.log.run [(Integer.unwritable, .event bareEvent)] = .error (.number .tooLong) ∧
      f.log.run [(0, .event (deepEvent 1001))] = .error .tooDeep := by
  obtain ⟨f, opened, made⟩ : ∃ f opened,
      create 1000 [] (.ofText "logs") "run" "server" = .ok (f, opened) := ⟨_, _, rfl⟩
  obtain ⟨fresh, _⟩ := create_eq_ok made
  refine ⟨f, opened, made, ?_, ?_⟩
  · have unwritten : f.log.writes Integer.unwritable bareEvent = false :=
      @writes_of_get? f.log _ _ "ts_ms" _ rfl Integer.isWritable_unwritable
    have refused : f.log.append Integer.unwritable bareEvent = .error (.number .tooLong) := by
      rw [append_eq (Nat.zero_le _), unwritten]
      rfl
    rw [run, call_of_event? rfl, refused]
  · have zero : Integer.isWritable 0 = true :=
      Integer.isWritable_of_lt (Int.le_refl 0) (by decide)
    have fields : (deepEvent 1001).IsWritable := by
      simp [Event.IsWritable, deepEvent, Json.fieldsWritable, isWritable_nest]
    have field : Table.get? (f.log.object 0 (deepEvent 1001)) "field" = some (nest 1001) := rfl
    have deep : f.log.levels < (nest 1001).depth := by
      rw [depth_nest, fresh]
      exact Nat.lt_succ_self 1000
    have refused := append_of_lt_depth (f.log.writes_of_isWritable zero fields) field deep
    rw [run, call_of_event? rfl, refused]

end LogFile

end PartRelay
