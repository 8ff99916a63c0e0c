import PartRelay.Proofs.Intake

/-!
# What a log tells

Whatever reassembler answers the intake, each exchange leaves a block of one or two lines in the
log, and the blocks of a run stand in the order of its exchanges. The text can be read again: it
tells of every exchange whether its part was malformed, refused, kept for later or completed a
message, and which message the submission was shown.
-/

namespace PartRelay.Intake

open Reassembly (Message)

/-! ## Exchanges -/

/-- An exchange of the intake: when, with which fragment, and what a reassembler makes of the part.
It may answer anything, and refuse the part in the two ways that are told apart. -/
structure Exchange where
  now : Int
  fragment : Fragment
  answer : Except (Rejection Empty) Answer

/-- What an exchange comes to. -/
abbrev Ending := Except (Failure Empty) Receipt

/-- Whether an exchange has completed a message. -/
def Ending.isCompleted : Ending → Bool
  | .ok receipt => receipt.completed
  | .error _ => false

/-- Exchanges one after the other: what each of them comes to, and the log after the last. -/
def run (log : Option EventLog) : List Exchange → List Ending × Option EventLog
  | [] => ([], log)
  | x :: exchanges =>
    let (ending, next) := conclude log x.now x.fragment x.answer
    let (endings, last) := run next exchanges
    (ending :: endings, last)

namespace Exchange

variable (log : EventLog) (x : Exchange)

def ending : Ending := (conclude (some log) x.now x.fragment x.answer).1

def events : List Event := (respond x.fragment x.answer).2

/-- The lines that an exchange leaves. -/
def block : List Text := log.linesOf x.now x.events

/-- The exchange does not fail for an event that cannot be logged. -/
def IsLogged : Prop := ∀ cause, x.ending log ≠ .error (.unlogged cause)

end Exchange

/-- The text that exchanges leave in a log. -/
def story (log : EventLog) (exchanges : List Exchange) : Text :=
  EventLog.textOf (exchanges.flatMap (Exchange.block log))

section Run

variable {log : EventLog} {x : Exchange}

theorem conclude_eq (opened : log.closed = false) (x : Exchange) :
    conclude (some log) x.now x.fragment x.answer =
      (if x.events.all (log.writes x.now) then (respond x.fragment x.answer).1.mapError .rejected
        else .error (.unlogged (.number .tooLong)),
        some (log.extend (EventLog.textOf (x.block log)))) := by
  rw [conclude]
  simp only [EventLog.appendAll_eq opened x.now _ (depth_le_of_mem_respond x.answer log.levels)]
  cases written : (respond x.fragment x.answer).2.all (log.writes x.now) with
  | true => simp [Exchange.events, Exchange.block, written]
  | false => simp [Exchange.events, Exchange.block, written]

theorem ending_eq (opened : log.closed = false) (x : Exchange) :
    x.ending log = if x.events.all (log.writes x.now)
      then (respond x.fragment x.answer).1.mapError .rejected
      else .error (.unlogged (.number .tooLong)) := by
  rw [Exchange.ending, conclude_eq opened]

theorem isLogged_iff (opened : log.closed = false) :
    x.IsLogged log ↔ x.events.all (log.writes x.now) = true := by
  rw [Exchange.IsLogged, ending_eq opened]
  cases written : x.events.all (log.writes x.now) with
  | false =>
    simp only [Bool.false_eq_true, if_false, iff_false]
    exact fun logged => logged (.number .tooLong) rfl
  | true =>
    cases (respond x.fragment x.answer).1 with
    | ok receipt => simp [Except.mapError]
    | error cause => simp [Except.mapError]

/-- Exchanges leave their blocks in the log one behind the other, and none of them depends on what
the log holds. -/
theorem run_eq (opened : log.closed = false) (exchanges : List Exchange) :
    run (some log) exchanges
      = (exchanges.map (Exchange.ending log), some (log.extend (story log exchanges))) := by
  induction exchanges generalizing log with
  | nil => simp [run, story, EventLog.extend, EventLog.textOf]
  | cons x exchanges ih =>
    have rest := @ih (log.extend (EventLog.textOf (x.block log))) opened
    have endings : Exchange.ending (log.extend (EventLog.textOf (x.block log)))
        = Exchange.ending log := by
      funext x'
      rw [ending_eq opened, @ending_eq (log.extend _) opened]
      rfl
    rw [run, conclude_eq opened]
    simp only [rest, endings]
    rw [List.map_cons, ending_eq opened x]
    simp [story, EventLog.textOf, EventLog.extend]
    rfl

end Run

/-! ## Entries -/

/-- What a line of the log says about an exchange. -/
inductive Entry where
  | rejected
  | failed
  | accepted (complete : Bool)
  | completed (messageType timestampNs payloadBytes : Int)
  deriving DecidableEq

namespace Entry

/-- An entry is told by its event, and has the fields of that. -/
def ofJson (j : Json) : Option Entry :=
  match j.field? "event" with
  | some (.string name) =>
    if name = "part_rejected" then some .rejected
    else if name = "reassembly_failed" then some .failed
    else if name = "part_accepted" then
      match j.field? "completed" with
      | some (.bool complete) => some (.accepted complete)
      | _ => none
    else if name = "message_completed" then
      match j.field? "message_type", j.field? "timestamp_ns", j.field? "payload_bytes" with
      | some (.int type), some (.int time), some (.int bytes) => some (.completed type time bytes)
      | _, _, _ => none
    else none
  | _ => none

def ofLine (line : Text) : Option Entry := (Json.read line).toOption.bind ofJson

def isCompletion : Option Entry → Bool
  | some (.completed ..) => true
  | _ => false

end Entry

section Lines

variable {log : EventLog} {now : Int} (f : Fragment)

theorem ofLine_lineText {e : Event} (readable : e.IsReadable) (written : log.writes now e = true) :
    Entry.ofLine (log.lineText now e) = Entry.ofJson (Json.object (log.object now e)).join := by
  rw [Entry.ofLine, EventLog.read_lineText readable written]
  rfl

theorem isReadable_rejected (reason : Text) : (rejected f reason).IsReadable := by
  have sender : (Text.ofString "sender").IsScalar := by rw [Text.IsScalar]; decide
  have cause : (Text.ofString "reason").IsScalar := by rw [Text.IsScalar]; decide
  exact ⟨sender, trivial, cause, trivial, trivial⟩

theorem isReadable_failed (reason : Text) : (failed f reason).IsReadable :=
  isReadable_rejected f reason

theorem isReadable_accepted (complete : Bool) : (accepted f complete).IsReadable := by
  have sender : (Text.ofString "sender").IsScalar := by rw [Text.IsScalar]; decide
  have bytes : (Text.ofString "bytes").IsScalar := by rw [Text.IsScalar]; decide
  have completed : (Text.ofString "completed").IsScalar := by rw [Text.IsScalar]; decide
  exact ⟨sender, trivial, bytes, trivial, completed, trivial, trivial⟩

theorem isReadable_completed (m : Message) : (completed f m).IsReadable := by
  have sender : (Text.ofString "sender").IsScalar := by rw [Text.IsScalar]; decide
  have id : (Text.ofString "message_id").IsScalar := by rw [Text.IsScalar]; decide
  have type : (Text.ofString "message_type").IsScalar := by rw [Text.IsScalar]; decide
  have time : (Text.ofString "timestamp_ns").IsScalar := by rw [Text.IsScalar]; decide
  have bytes : (Text.ofString "payload_bytes").IsScalar := by rw [Text.IsScalar]; decide
  exact ⟨sender, trivial, id, trivial, type, trivial, time, trivial, bytes, trivial, trivial⟩

theorem ofLine_rejected {reason : Text} (written : log.writes now (rejected f reason) = true) :
    Entry.ofLine (log.lineText now (rejected f reason)) = some .rejected := by
  rw [ofLine_lineText (isReadable_rejected f reason) written]
  rfl

theorem ofLine_failed {reason : Text} (written : log.writes now (failed f reason) = true) :
    Entry.ofLine (log.lineText now (failed f reason)) = some .failed := by
  rw [ofLine_lineText (isReadable_failed f reason) written]
  rfl

theorem ofLine_accepted {complete : Bool} (written : log.writes now (accepted f complete) = true) :
    Entry.ofLine (log.lineText now (accepted f complete)) = some (.accepted complete) := by
  rw [ofLine_lineText (isReadable_accepted f complete) written]
  rfl

theorem ofLine_completed {m : Message} (written : log.writes now (completed f m) = true) :
    Entry.ofLine (log.lineText now (completed f m))
      = some (.completed m.messageType m.timestampNs m.payload.length) := by
  rw [ofLine_lineText (isReadable_completed f m) written]
  rfl

end Lines

/-! ## Courses -/

/-- The course of an exchange, as far as the log tells it. -/
inductive Course where
  /-- The part is malformed. -/
  | rejected
  /-- The part does not fit. -/
  | failed
  /-- The part waits for others. -/
  | waiting
  | completed (messageType timestampNs payloadBytes : Int)
  /-- The message is said to be complete, but there is none. -/
  | hollow
  deriving DecidableEq

namespace Course

/-- The block of a course. -/
def entries : Course → List Entry
  | .rejected => [.rejected]
  | .failed => [.failed]
  | .waiting => [.accepted false]
  | .completed type time bytes => [.accepted true, .completed type time bytes]
  | .hollow => [.accepted true, .failed]

/-- Reads blocks one after the other. -/
def ofEntries : List (Option Entry) → Option (List Course)
  | [] => some []
  | some .rejected :: rest => (ofEntries rest).map (.rejected :: ·)
  | some .failed :: rest => (ofEntries rest).map (.failed :: ·)
  | some (.accepted false) :: rest => (ofEntries rest).map (.waiting :: ·)
  | some (.accepted true) :: some (.completed type time bytes) :: rest =>
    (ofEntries rest).map (.completed type time bytes :: ·)
  | some (.accepted true) :: some .failed :: rest => (ofEntries rest).map (.hollow :: ·)
  | _ => none

/-- The courses that a log's text tells. -/
def ofText (t : Text) : Option (List Course) := ofEntries ((EventLog.lines t).map Entry.ofLine)

/-- No block is the start of another, so that their sequence is read in one way only. -/
theorem ofEntries_flatMap (courses : List Course) :
    ofEntries (courses.flatMap fun course => course.entries.map some) = some courses := by
  induction courses with
  | nil => rfl
  | cons course courses ih =>
    rw [List.flatMap_cons]
    generalize courses.flatMap _ = rest at ih ⊢
    cases course <;> simp [entries, ofEntries, ih]

end Course

namespace Exchange

variable (log : EventLog) (x : Exchange)

/-- What the lines of an exchange say. -/
def entries : List (Option Entry) := (x.block log).map Entry.ofLine

def course : Course :=
  match x.answer with
  | .error (.malformed _) => .rejected
  | .error (.conflict _) => .failed
  | .error (.other cause) => cause.elim
  | .ok ⟨false, _⟩ => .waiting
  | .ok ⟨true, none⟩ => .hollow
  | .ok ⟨true, some m⟩ => .completed (withOverrides m x.fragment).messageType
      (withOverrides m x.fragment).timestampNs m.payload.length

end Exchange

/-- What becomes of an answer: the course, the events, and the receipt or the rejection. -/
inductive Leads (f : Fragment) : Except (Rejection Empty) Answer → Course → List Event →
    Except (Rejection Empty) Receipt → Prop where
  | rejected (reason : Text) :
      Leads f (.error (.malformed reason)) .rejected [Intake.rejected f reason]
        (.error (.malformed reason))
  | failed (reason : Text) :
      Leads f (.error (.conflict reason)) .failed [Intake.failed f reason]
        (.error (.conflict reason))
  | waiting (message : Option Message) :
      Leads f (.ok ⟨false, message⟩) .waiting [accepted f false] (.ok (Intake.waiting f))
  | completed (m : Message) :
      Leads f (.ok ⟨true, some m⟩)
        (.completed (withOverrides m f).messageType (withOverrides m f).timestampNs
          m.payload.length)
        [accepted f true, Intake.completed f (withOverrides m f)] (.ok (completing f m))
  | hollow :
      Leads f (.ok ⟨true, none⟩) .hollow [accepted f true, Intake.failed f "no message"]
        (.error (.conflict "reassembler reported completion without a message"))

theorem leads (x : Exchange) :
    Leads x.fragment x.answer x.course x.events (respond x.fragment x.answer).1 := by
  obtain ⟨now, f, answer⟩ := x
  match answer with
  | .error (.malformed reason) => exact .rejected reason
  | .error (.conflict reason) => exact .failed reason
  | .error (.other cause) => exact cause.elim
  | .ok ⟨false, message⟩ => exact .waiting message
  | .ok ⟨true, some m⟩ => exact .completed m
  | .ok ⟨true, none⟩ => exact .hollow

section Blocks

variable {log : EventLog} {now : Int} {f : Fragment} {answer : Except (Rejection Empty) Answer}
  {course : Course} {events : List Event} {result : Except (Rejection Empty) Receipt}

theorem entries_of_all (leads : Leads f answer course events result)
    (written : events.all (log.writes now) = true) :
    (log.linesOf now events).map Entry.ofLine = course.entries.map some := by
  rw [EventLog.linesOf_of_all written]
  simp only [List.all_eq_true] at written
  cases leads with
  | rejected reason => exact congrArg ([·]) (ofLine_rejected f (written _ List.mem_cons_self))
  | failed reason => exact congrArg ([·]) (ofLine_failed f (written _ List.mem_cons_self))
  | waiting message => exact congrArg ([·]) (ofLine_accepted f (written _ List.mem_cons_self))
  | completed m =>
    have first := ofLine_accepted f (written _ List.mem_cons_self)
    have second := ofLine_completed f (written _ (List.mem_cons_of_mem _ List.mem_cons_self))
    show [Entry.ofLine _, Entry.ofLine _] = [_, _]
    rw [first, second]
    rfl
  | hollow =>
    have first := ofLine_accepted f (written _ List.mem_cons_self)
    have second := ofLine_failed f (written _ (List.mem_cons_of_mem _ List.mem_cons_self))
    show [Entry.ofLine _, Entry.ofLine _] = [_, _]
    rw [first, second]

/-- A block that starts with an acceptance and is cut short has that line at most. -/
theorem entries_of_accepted {e : Event}
    (unwritten : [accepted f true, e].all (log.writes now) = false) :
    (log.linesOf now [accepted f true, e]).map Entry.ofLine = [] ∨
      (log.linesOf now [accepted f true, e]).map Entry.ofLine = [some (.accepted true)] := by
  cases first : log.writes now (accepted f true) with
  | false => exact .inl (congrArg _ (EventLog.linesOf_cons_of_not_writes first))
  | true =>
    have second : log.writes now e = false := by simpa [first] using unwritten
    rw [EventLog.linesOf_cons_of_writes first, EventLog.linesOf_cons_of_not_writes second]
    exact .inr (congrArg ([·]) (ofLine_accepted f first))

/-- Of an exchange that cannot be logged in full at most the first line is there, and only where a
message was to be completed. -/
theorem entries_of_not_all (leads : Leads f answer course events result)
    (unwritten : events.all (log.writes now) = false) :
    (log.linesOf now events).map Entry.ofLine = [] ∨
      (log.linesOf now events).map Entry.ofLine = [some (.accepted true)] := by
  cases leads with
  | completed m => exact entries_of_accepted unwritten
  | hollow => exact entries_of_accepted unwritten
  | rejected reason | failed reason | waiting message =>
    refine .inl (congrArg _ (EventLog.linesOf_cons_of_not_writes ?_))
    simpa using unwritten

/-- The events that there are: refusals, acceptances, and the completion of the message that the
reassembler gives. -/
theorem event_of_leads (leads : Leads f answer course events result) {e : Event}
    (among : e ∈ events) :
    (∃ reason, e = rejected f reason ∨ e = failed f reason) ∨
      (∃ complete, e = accepted f complete) ∨
      ∃ m, answer = .ok ⟨true, some m⟩ ∧ e = completed f (withOverrides m f) := by
  cases leads with
  | rejected reason => exact .inl ⟨reason, .inl (List.mem_singleton.mp among)⟩
  | failed reason => exact .inl ⟨reason, .inr (List.mem_singleton.mp among)⟩
  | waiting message => exact .inr (.inl ⟨false, List.mem_singleton.mp among⟩)
  | completed m =>
    rcases List.mem_cons.mp among with first | second
    · exact .inr (.inl ⟨true, first⟩)
    · exact .inr (.inr ⟨m, rfl, List.mem_singleton.mp second⟩)
  | hollow =>
    rcases List.mem_cons.mp among with first | second
    · exact .inr (.inl ⟨true, first⟩)
    · exact .inl ⟨_, .inr (List.mem_singleton.mp second)⟩

theorem isReadable_of_leads (leads : Leads f answer course events result) :
    ∀ e ∈ events, e.IsReadable := by
  intro e among
  rcases event_of_leads leads among with ⟨reason, rfl | rfl⟩ | ⟨complete, rfl⟩ | ⟨m, _, rfl⟩
  · exact isReadable_rejected f reason
  · exact isReadable_failed f reason
  · exact isReadable_accepted f complete
  · exact isReadable_completed f _

/-- The events of an exchange can be written when its length and the numbers of a completed message
can. -/
theorem isWritable_of_leads (leads : Leads f answer course events result)
    (length : Integer.isWritable f.payload.length = true)
    (message : ∀ m, answer = .ok ⟨true, some m⟩ →
      Integer.isWritable m.messageId = true ∧
        Integer.isWritable (withOverrides m f).messageType = true ∧
        Integer.isWritable (withOverrides m f).timestampNs = true ∧
        Integer.isWritable m.payload.length = true) :
    ∀ e ∈ events, e.IsWritable := by
  intro e among
  rcases event_of_leads leads among with ⟨reason, rfl | rfl⟩ | ⟨complete, rfl⟩ | ⟨m, given, rfl⟩
  · rfl
  · rfl
  · exact isWritable_accepted length complete
  · obtain ⟨id, type, time, bytes⟩ := message m given
    exact isWritable_completed_of_numbers id type time bytes

theorem countP_of_leads (leads : Leads f answer course events result) :
    (course.entries.map some).countP Entry.isCompletion
      = if Ending.isCompleted (result.mapError .rejected) then 1 else 0 := by
  cases leads <;> rfl

end Blocks

namespace Exchange

variable (log : EventLog) (x : Exchange)

/-- The numbers that an exchange has to tell are ones that can be written. -/
structure IsWritable : Prop where
  now : Integer.isWritable x.now = true
  length : Integer.isWritable x.fragment.payload.length = true
  message : ∀ m, x.answer = .ok ⟨true, some m⟩ →
    Integer.isWritable m.messageId = true ∧
      Integer.isWritable (withOverrides m x.fragment).messageType = true ∧
      Integer.isWritable (withOverrides m x.fragment).timestampNs = true ∧
      Integer.isWritable m.payload.length = true

/-- The log tells of an exchange what came of it. A block that is none of these is cut short by an
event that cannot be logged. -/
structure IsTold : Prop where
  rejected : x.entries log = [some .rejected] ↔
    ∃ reason, x.ending log = .error (.rejected (.malformed reason))
  failed : x.entries log = [some .failed] ↔
    ∃ reason, x.answer = .error (.conflict reason) ∧
      x.ending log = .error (.rejected (.conflict reason))
  waiting : x.entries log = [some (.accepted false)] ↔
    ∃ receipt, x.ending log = .ok receipt ∧ receipt.completed = false
  completed : (∃ type time bytes,
      x.entries log = [some (.accepted true), some (.completed type time bytes)]) ↔
    ∃ receipt, x.ending log = .ok receipt ∧ receipt.completed = true
  shown : ∀ type time bytes,
    x.entries log = [some (.accepted true), some (.completed type time bytes)] →
      ∃ m receipt payload, x.answer = .ok ⟨true, some m⟩ ∧ x.ending log = .ok receipt ∧
        type = (withOverrides m x.fragment).messageType ∧ receipt.messageType = type ∧
        time = (withOverrides m x.fragment).timestampNs ∧
        receipt.payload = some payload ∧ bytes = payload.length
  hollow : x.entries log = [some (.accepted true), some .failed] ↔
    ∃ reason, x.answer = .ok ⟨true, none⟩ ∧ x.ending log = .error (.rejected (.conflict reason))
  cut : (x.entries log = [] ∨ x.entries log = [some (.accepted true)]) ↔ ¬ x.IsLogged log

variable {log x}

theorem isTold_of_leads {course : Course} {events : List Event}
    {result : Except (Rejection Empty) Receipt}
    (leads : Leads x.fragment x.answer course events result)
    (entries : x.entries log = course.entries.map some)
    (ending : x.ending log = result.mapError .rejected) : x.IsTold log := by
  obtain ⟨now, f, answer⟩ := x
  cases leads with
  | rejected reason =>
    constructor <;> simp [IsLogged, entries, ending, Course.entries, Except.mapError]
  | failed reason =>
    constructor <;> simp [IsLogged, entries, ending, Course.entries, Except.mapError]
  | waiting message =>
    constructor <;>
      simp [IsLogged, entries, ending, Course.entries, Except.mapError, Intake.waiting]
  | completed m =>
    constructor <;>
      simp [IsLogged, entries, ending, Course.entries, Except.mapError, completing, withOverrides]
  | hollow =>
    constructor <;> simp [IsLogged, entries, ending, Course.entries, Except.mapError]

/-- The log tells of every exchange, also of one whose events cannot all be logged. -/
theorem isTold (opened : log.closed = false) (x : Exchange) : x.IsTold log := by
  have ending := ending_eq opened x
  cases written : x.events.all (log.writes x.now) with
  | true =>
    rw [written, if_pos rfl] at ending
    exact isTold_of_leads (leads x) (entries_of_all (leads x) written) ending
  | false =>
    rw [written] at ending
    have unlogged : ¬ x.IsLogged log := fun logged => logged (.number .tooLong) ending
    rcases entries_of_not_all (leads x) written with entries | entries
    · constructor <;> simp [Exchange.entries, block, entries, ending, unlogged]
    · constructor <;> simp [Exchange.entries, block, entries, ending, unlogged]

theorem entries_eq (opened : log.closed = false) (logged : x.IsLogged log) :
    x.entries log = x.course.entries.map some :=
  entries_of_all (leads x) ((isLogged_iff opened).mp logged)

theorem isLogged_of_isWritable (opened : log.closed = false) (h : x.IsWritable) :
    x.IsLogged log := by
  have events : ∀ e ∈ x.events, e.IsWritable := isWritable_of_leads (leads x) h.length h.message
  rw [isLogged_iff opened, List.all_eq_true]
  exact fun e among => log.writes_of_isWritable h.now (events e among)

end Exchange

/-! ## Whole logs -/

section Whole

variable {log : EventLog} {x : Exchange}

/-- What a block has is one line of the text each. -/
theorem lines_story (log : EventLog) (exchanges : List Exchange) :
    EventLog.lines (story log exchanges) = exchanges.flatMap (Exchange.block log) := by
  refine EventLog.lines_textOf fun l member => ?_
  obtain ⟨x, _, block⟩ := List.mem_flatMap.mp member
  obtain ⟨e, among, rfl⟩ := List.mem_map.mp block
  have event : e ∈ x.events := (List.takeWhile_sublist _).subset among
  exact log.lineText_isLine x.now (isReadable_of_leads (leads x) e event)

/-- A block says that a message was completed once if that is so, and else not at all. -/
theorem countP_block (opened : log.closed = false) (x : Exchange) :
    (x.block log).countP (Entry.isCompletion ∘ Entry.ofLine)
      = if Ending.isCompleted (x.ending log) then 1 else 0 := by
  rw [← List.countP_map, ending_eq opened]
  cases written : x.events.all (log.writes x.now) with
  | true =>
    rw [if_pos rfl]
    exact (congrArg _ (entries_of_all (leads x) written)).trans (countP_of_leads (leads x))
  | false =>
    rcases entries_of_not_all (leads x) written with none | one
    · exact congrArg _ none
    · exact congrArg _ one

theorem countP_story (opened : log.closed = false) (exchanges : List Exchange) :
    (exchanges.flatMap (Exchange.block log)).countP (Entry.isCompletion ∘ Entry.ofLine)
      = (exchanges.map (Exchange.ending log)).countP Ending.isCompleted := by
  induction exchanges with
  | nil => rfl
  | cons x exchanges ih =>
    rw [List.flatMap_cons, List.countP_append, ih, countP_block opened, List.map_cons,
      List.countP_cons, Nat.add_comm]

/-- What has been logged in full is read again. -/
theorem ofText_story (opened : log.closed = false) {exchanges : List Exchange}
    (logged : ∀ x ∈ exchanges, x.IsLogged log) :
    Course.ofText (story log exchanges) = some (exchanges.map Exchange.course) := by
  have entries : (exchanges.flatMap (Exchange.block log)).map Entry.ofLine
      = (exchanges.map Exchange.course).flatMap fun course => course.entries.map some := by
    induction exchanges with
    | nil => rfl
    | cons x exchanges ih =>
      have written := (isLogged_iff opened).mp (logged x List.mem_cons_self)
      rw [List.flatMap_cons, List.map_append, List.map_cons, List.flatMap_cons,
        ih fun x' member => logged x' (List.mem_cons_of_mem _ member)]
      exact congrArg (· ++ _) (entries_of_all (leads x) written)
  rw [Course.ofText, lines_story, entries, Course.ofEntries_flatMap]

/-- The log of a run tells the whole story: the blocks of its exchanges in their order, each of
which says what came of the exchange, and as many completions as there were. Where no exchange fails
for an event that cannot be logged, which none does whose numbers can be written, the courses of all
of them are read from the text. -/
theorem log_tells_story (opened : log.closed = false) (exchanges : List Exchange) :
    run (some log) exchanges
        = (exchanges.map (Exchange.ending log), some (log.extend (story log exchanges))) ∧
      EventLog.lines (story log exchanges) = exchanges.flatMap (Exchange.block log) ∧
      (∀ x ∈ exchanges, x.IsTold log) ∧
      (EventLog.lines (story log exchanges)).countP (Entry.isCompletion ∘ Entry.ofLine)
        = (exchanges.map (Exchange.ending log)).countP Ending.isCompleted ∧
      (∀ x ∈ exchanges, x.IsLogged log → x.entries log = x.course.entries.map some) ∧
      ((∀ x ∈ exchanges, x.IsLogged log) →
        Course.ofText (story log exchanges) = some (exchanges.map Exchange.course)) ∧
      ∀ x ∈ exchanges, x.IsWritable → x.IsLogged log := by
  have lines := lines_story log exchanges
  refine ⟨run_eq opened exchanges, lines, fun x _ => x.isTold opened, ?_,
    fun x _ => Exchange.entries_eq opened, ofText_story opened,
    fun x _ => Exchange.isLogged_of_isWritable opened⟩
  rw [lines, countP_story opened]

end Whole

/-- A log that is open and empty. -/
def deskLog : EventLog where
  levels := 10
  runId := "desk"
  role := EventLog.defaultRole

/-- A submission that wants its message shown as one of type seven. -/
def sevenAsked : Fragment where
  sender := ⟨List.replicate 33 3⟩
  payload := [1, 2]
  messageType := 7

/-- A message of another type. -/
def abc : Message where
  sender := ⟨List.replicate 33 3⟩
  payload := [65, 66, 67]
  messageType := 5
  timestampNs := 9
  messageId := 1
  fingerprint := []

/-- The second of two submissions completes the message. -/
def abcDelivered : List Exchange :=
  [⟨0, sevenAsked, .ok ⟨false, none⟩⟩, ⟨4, sevenAsked, .ok ⟨true, some abc⟩⟩]

theorem log_tells_story_abc :
    deskLog.closed = false ∧ (∀ x ∈ abcDelivered, x.IsLogged deskLog) ∧
      Course.ofText (story deskLog abcDelivered) = some [.waiting, .completed 7 9 3] := by
  have small : ∀ n : Int, 0 ≤ n → n < 10 → Integer.isWritable n = true :=
    fun n low high => Integer.isWritable_of_lt low (by omega)
  have numbers : ∀ x ∈ abcDelivered, x.IsWritable := by
    intro x among
    rcases List.mem_cons.mp among with rfl | among
    · exact ⟨small 0 (by decide) (by decide), small 2 (by decide) (by decide), by rintro m ⟨⟩⟩
    · cases List.mem_singleton.mp among
      refine ⟨small 4 (by decide) (by decide), small 2 (by decide) (by decide), ?_⟩
      rintro m ⟨⟩
      exact ⟨small 1 (by decide) (by decide), small 7 (by decide) (by decide),
        small 9 (by decide) (by decide), small 3 (by decide) (by decide)⟩
  obtain ⟨_, _, _, _, _, read, logged⟩ := @log_tells_story deskLog rfl abcDelivered
  have all : ∀ x ∈ abcDelivered, x.IsLogged deskLog :=
    fun x among => logged x among (numbers x among)
  exact ⟨rfl, all, read all⟩

/-- The message with a time that cannot be written. -/
def undated : Message := { abc with timestampNs := Integer.unwritable }

/-- It is said to be completed, and no word of it follows; at a time that cannot be written, nothing
is said at all. -/
theorem log_breaks_off :
    deskLog.closed = false ∧
      Exchange.entries deskLog ⟨0, sevenAsked, .ok ⟨true, some undated⟩⟩
        = [some (.accepted true)] ∧
      Exchange.ending deskLog ⟨0, sevenAsked, .ok ⟨true, some undated⟩⟩
        = .error (.unlogged (.number .tooLong)) ∧
      Exchange.entries deskLog ⟨Integer.unwritable, sevenAsked, .ok ⟨false, none⟩⟩ = [] ∧
      Exchange.ending deskLog ⟨Integer.unwritable, sevenAsked, .ok ⟨false, none⟩⟩
        = .error (.unlogged (.number .tooLong)) := by
  have zero : Integer.isWritable 0 = true := Integer.isWritable_of_lt (Int.le_refl 0) (by decide)
  have length : Integer.isWritable sevenAsked.payload.length = true :=
    Integer.isWritable_of_lt (n := 2) (by decide) (by decide)
  have first : deskLog.writes 0 (accepted sevenAsked true) = true :=
    deskLog.writes_of_isWritable zero (isWritable_accepted length true)
  have second :
      deskLog.writes 0 (completed sevenAsked (withOverrides undated sevenAsked)) = false :=
    @EventLog.writes_of_get? deskLog 0 _ "timestamp_ns" _ rfl Integer.isWritable_unwritable
  have late : deskLog.writes Integer.unwritable (accepted sevenAsked false) = false :=
    @EventLog.writes_of_get? deskLog _ _ "ts_ms" _ rfl Integer.isWritable_unwritable
  refine ⟨rfl, ?_, ?_, ?_, ?_⟩
  · show (deskLog.linesOf 0 [accepted sevenAsked true,
      completed sevenAsked (withOverrides undated sevenAsked)]).map Entry.ofLine = _
    rw [EventLog.linesOf_cons_of_writes first, EventLog.linesOf_cons_of_not_writes second]
    exact congrArg ([·]) (ofLine_accepted sevenAsked first)
  · exact conclude_of_not_writes rfl _ (List.mem_cons_of_mem _ List.mem_cons_self) second
  · exact congrArg (List.map Entry.ofLine) (EventLog.linesOf_cons_of_not_writes late)
  · exact conclude_of_not_writes rfl _ List.mem_cons_self late

end PartRelay.Intake
