import Mathlib.Data.List.Forall2
import PartRelay.Proofs.Intake
import PartRelay.Proofs.Reassembly.Headings

/-!
# Overrides

What a submission says about the type and the time of its message goes into its own receipt and into
the log, and no further. Two runs that differ in nothing else keep the same buffers, and give the
same receipts but for the types; only a log stands apart that cannot write what a submission says of
the message that it completes.
-/

namespace PartRelay

/-! ## Events that are logged alike -/

namespace Json

/-- Fields with the same keys, the values of which can both be written or both not. -/
def WrittenAlike (fields fields' : List (Text × Json)) : Prop :=
  List.Forall₂ (fun field field' => field.1 = field'.1 ∧ field.2.isWritable = field'.2.isWritable)
    fields fields'

variable {fields fields' more more' : Table Text Json}

theorem WrittenAlike.fieldsWritable_eq (h : WrittenAlike fields fields') :
    fieldsWritable fields = fieldsWritable fields' := by
  induction h with
  | nil => rfl
  | @cons field field' _ _ same _ ih =>
    obtain ⟨key, value⟩ := field
    obtain ⟨key', value'⟩ := field'
    rw [fieldsWritable, fieldsWritable, same.2, ih]

theorem WrittenAlike.set (h : WrittenAlike fields fields') (key : Text) {value value' : Json}
    (same : value.isWritable = value'.isWritable) :
    WrittenAlike (Table.set fields key value) (Table.set fields' key value') := by
  induction h with
  | nil => exact .cons ⟨rfl, same⟩ .nil
  | @cons field field' _ _ first rest ih =>
    obtain ⟨k, v⟩ := field
    obtain ⟨k', v'⟩ := field'
    obtain rfl : k = k' := first.1
    rw [Table.set, Table.set]
    split
    · exact .cons ⟨rfl, same⟩ rest
    · exact .cons first ih

theorem WrittenAlike.update (h : WrittenAlike fields fields') (hm : WrittenAlike more more') :
    WrittenAlike (Table.update fields more) (Table.update fields' more') := by
  rw [Table.update, Table.update]
  induction hm generalizing fields fields' with
  | nil => exact h
  | @cons field field' _ _ first _ ih =>
    obtain ⟨key, value⟩ := field
    obtain ⟨key', value'⟩ := field'
    obtain rfl : key = key' := first.1
    exact ih (h.set key first.2)

end Json

namespace EventLog

variable {e e' : Event} {events events' : List Event}

/-- An event is appended to a log or it is not, whatever the log holds, and another event of which
the same can be written with it. -/
theorem append_alike (log log' : EventLog) (now : Int)
    (same : Json.WrittenAlike e.fields e'.fields) (shallow : e.depth ≤ log.levels)
    (shallow' : e'.depth ≤ log'.levels) :
    (∃ next next', log.append now e = .ok next ∧ log'.append now e' = .ok next' ∧
      next.levels = log.levels ∧ next'.levels = log'.levels) ∨
    (log.append now e = .error (.number .tooLong) ∧
      log'.append now e' = .error (.number .tooLong)) := by
  have object : Json.WrittenAlike (log.object now e) (log'.object now e') :=
    Json.WrittenAlike.update
      (.cons ⟨rfl, rfl⟩ (.cons ⟨rfl, rfl⟩ (.cons ⟨rfl, rfl⟩ (.cons ⟨rfl, rfl⟩ .nil)))) same
  have writable : log.writes now e = log'.writes now e' := object.fieldsWritable_eq
  have appended := @append_eq log now e shallow
  have appended' := @append_eq log' now e' shallow'
  rw [writable] at appended
  cases written : log'.writes now e' with
  | true =>
    rw [written] at appended appended'
    exact .inl ⟨_, _, appended, appended', levels_of_append appended, levels_of_append appended'⟩
  | false =>
    rw [written] at appended appended'
    exact .inr ⟨appended, appended'⟩

theorem appendAll_alike (log log' : EventLog) (now : Int)
    (same : List.Forall₂ (fun e e' => Json.WrittenAlike e.fields e'.fields) events events')
    (shallow : ∀ e ∈ events, e.depth ≤ log.levels)
    (shallow' : ∀ e ∈ events', e.depth ≤ log'.levels) :
    (log.appendAll now events).1 = (log'.appendAll now events').1 := by
  induction same generalizing log log' with
  | nil => rfl
  | cons first _ ih =>
    obtain ⟨here, later⟩ := List.forall_mem_cons.mp shallow
    obtain ⟨here', later'⟩ := List.forall_mem_cons.mp shallow'
    rcases append_alike log log' now first here here' with
      ⟨next, next', one, two, levels, levels'⟩ | ⟨one, two⟩
    · simp only [appendAll, one, two]
      exact ih next next' (levels ▸ later) (levels' ▸ later')
    · simp only [appendAll, one, two]

end EventLog

namespace Intake

open Reassembly (Delivery Message Progress Refusal Reassembler)

/-! ## One submission -/

/-- A receipt without its type. -/
def Receipt.typeless (receipt : Receipt) : Receipt := { receipt with messageType := noMessageType }

variable {r : Reassembler} {now : Int} {s s' : State} {f f' : Fragment}
  {log log' : Option EventLog} {outcome : Except Refusal Progress}

/-- Whether a submission gives numbers that can be written to the message that it completes. -/
def Suits (f : Fragment) (outcome : Except Refusal Progress) : Prop :=
  ∀ m residue, outcome = .ok (.complete m residue) → HasWritableNumbers f

/-- A receipt is one for the answer, or there is none whoever has submitted the part. -/
theorem respond_cases (outcome : Except Refusal Progress) :
    (∃ rejection, ∀ f, (respond f (answerOf outcome)).1 = .error rejection) ∨
    (∃ progress, outcome = .ok progress ∧
      ∀ f, (respond f (answerOf outcome)).1 = .ok (receiptOf f progress)) := by
  cases outcome with
  | ok progress =>
    cases progress with
    | pending => exact .inr ⟨_, rfl, fun f => rfl⟩
    | complete m residue => exact .inr ⟨_, rfl, fun f => rfl⟩
  | error e =>
    cases e with
    | part cause => exact .inl ⟨_, fun f => rfl⟩
    | conflict cause => exact .inl ⟨_, fun f => rfl⟩
    | _ => exact .inl ⟨_, fun f => rfl⟩

/-- The events of two submissions of one part are logged alike. -/
theorem events_alike (same : deliveryOf f = deliveryOf f')
    (bounded : ∀ m residue, outcome = .ok (.complete m residue) →
      Integer.isWritable m.messageType = true ∧ Integer.isWritable m.timestampNs = true)
    (suits : Suits f outcome) (suits' : Suits f' outcome) :
    List.Forall₂ (fun e e' => Json.WrittenAlike e.fields e'.fields)
      (respond f (answerOf outcome)).2 (respond f' (answerOf outcome)).2 := by
  have payload : f.payload = f'.payload := congrArg Delivery.contents same
  have accepted : ∀ complete,
      Json.WrittenAlike (accepted f complete).fields (accepted f' complete).fields := by
    intro complete
    refine .cons ⟨rfl, rfl⟩ (.cons ⟨rfl, ?_⟩ (.cons ⟨rfl, rfl⟩ .nil))
    rw [payload]
  cases outcome with
  | ok progress =>
    cases progress with
    | pending => exact .cons (accepted false) .nil
    | complete m residue =>
      refine .cons (accepted true) (.cons ?_ .nil)
      obtain ⟨type, time⟩ := bounded m residue rfl
      have numbers := suits m residue rfl
      have numbers' := suits' m residue rfl
      refine .cons ⟨rfl, rfl⟩ (.cons ⟨rfl, rfl⟩ (.cons ⟨rfl, ?_⟩ (.cons ⟨rfl, ?_⟩
        (.cons ⟨rfl, rfl⟩ .nil))))
      · show Integer.isWritable _ = Integer.isWritable _
        rw [isWritable_type_withOverrides type numbers, isWritable_type_withOverrides type numbers']
      · show Integer.isWritable _ = Integer.isWritable _
        rw [isWritable_time_withOverrides time numbers, isWritable_time_withOverrides time numbers']
  | error e =>
    cases e with
    | part cause => exact .cons (.cons ⟨rfl, rfl⟩ (.cons ⟨rfl, rfl⟩ .nil)) .nil
    | conflict cause => exact .cons (.cons ⟨rfl, rfl⟩ (.cons ⟨rfl, rfl⟩ .nil)) .nil
    | _ => exact .nil

/-- What a log makes of an answer: its own failure comes first. -/
theorem conclude_some {ε : Type} (log : EventLog) (now : Int) (f : Fragment)
    (answer : Except (Rejection ε) Answer) : (conclude (some log) now f answer).1 =
      match (log.appendAll now (respond f answer).2).1 with
      | .error e => .error (.unlogged e)
      | .ok () => (respond f answer).1.mapError .rejected := by
  rw [conclude]
  dsimp only
  split
  next appended => rw [appended]
  next appended => rw [appended]

theorem isSome_conclude {ε : Type} (log : Option EventLog) (now : Int) (f : Fragment)
    (answer : Except (Rejection ε) Answer) :
    (conclude log now f answer).2.isSome = log.isSome := by
  unfold conclude
  cases log with
  | none => rfl
  | some log =>
    dsimp only
    split <;> rfl

/-- A receipt that is given is the one for the answer. -/
theorem receipt_of_conclude {receipt : Receipt}
    (h : (conclude log now f (answerOf outcome)).1 = .ok receipt) :
    ∃ progress, outcome = .ok progress ∧ receipt = receiptOf f progress := by
  have given : (respond f (answerOf outcome)).1 = .ok receipt := by
    cases log with
    | none => exact mapError_eq_ok.mp h
    | some log =>
      rw [conclude_some] at h
      split at h
      · cases h
      · exact mapError_eq_ok.mp h
  rcases respond_cases outcome with ⟨rejection, refused⟩ | ⟨progress, rfl, receipts⟩
  · rw [refused] at given
    cases given
  · rw [receipts] at given
    cases given
    exact ⟨progress, rfl, rfl⟩

/-- Two submissions of one part fail in the same way, or each gets its receipt for the answer. -/
theorem conclude_alike (same : deliveryOf f = deliveryOf f') (logged : log.isSome = log'.isSome)
    (bounded : ∀ m residue, outcome = .ok (.complete m residue) →
      Integer.isWritable m.messageType = true ∧ Integer.isWritable m.timestampNs = true)
    (suits : log.isSome → Suits f outcome) (suits' : log'.isSome → Suits f' outcome) :
    (∃ e, (conclude log now f (answerOf outcome)).1 = .error e ∧
      (conclude log' now f' (answerOf outcome)).1 = .error e) ∨
    (∃ progress, (conclude log now f (answerOf outcome)).1 = .ok (receiptOf f progress) ∧
      (conclude log' now f' (answerOf outcome)).1 = .ok (receiptOf f' progress)) := by
  have receipts : (∃ e, ((respond f (answerOf outcome)).1.mapError Failure.rejected) = .error e ∧
        ((respond f' (answerOf outcome)).1.mapError Failure.rejected) = .error e) ∨
      (∃ progress, ((respond f (answerOf outcome)).1.mapError Failure.rejected)
          = .ok (receiptOf f progress) ∧
        ((respond f' (answerOf outcome)).1.mapError Failure.rejected)
          = .ok (receiptOf f' progress)) := by
    rcases respond_cases outcome with ⟨rejection, refused⟩ | ⟨progress, _, given⟩
    · exact .inl ⟨.rejected rejection, by rw [refused]; rfl, by rw [refused]; rfl⟩
    · exact .inr ⟨progress, by rw [given]; rfl, by rw [given]; rfl⟩
  cases log with
  | none =>
    cases log' with
    | none => exact receipts
    | some log' => cases logged
  | some log =>
    cases log' with
    | none => cases logged
    | some log' =>
      have appended := EventLog.appendAll_alike log log' now
        (events_alike same bounded (suits rfl) (suits' rfl))
        (depth_le_of_mem_respond _ log.levels) (depth_le_of_mem_respond _ log'.levels)
      rw [conclude_some, conclude_some, appended]
      split
      next e _ => exact .inl ⟨.unlogged e, rfl, rfl⟩
      next => exact receipts

/-! ## Runs -/

/-- A fragment that comes in: when, what the reassembler answers, what comes of it, and the state
after it. -/
structure Turn where
  now : Int
  fragment : Fragment
  outcome : Except Refusal Progress
  result : Except (Failure Refusal) Receipt
  after : State

def turn (r : Reassembler) (s : State) (now : Int) (f : Fragment) : Turn where
  now
  fragment := f
  outcome := (r.handle now s.buffers (deliveryOf f)).1
  result := (handle r now s f).1
  after := (handle r now s f).2

/-- What happens as fragments come in, each at its time. -/
def turns (r : Reassembler) (s : State) : List (Int × Fragment) → List Turn
  | [] => []
  | (now, f) :: arrivals => turn r s now f :: turns r (turn r s now f).after arrivals

namespace Turn

/-- What the reassembler sees. -/
def event (t : Turn) : Reassembly.Event :=
  ⟨t.now, .deliver (deliveryOf t.fragment), .handled t.outcome⟩

/-- Whether a log, if there is one, can write what the fragment says of a message. -/
def IsLoggable (t : Turn) : Prop := t.after.log.isSome → Suits t.fragment t.outcome

/-- Two turns of which the reassembler sees the same, and the sender the same but for the types. -/
structure IsAlike (t t' : Turn) : Prop where
  outcome : t.outcome = t'.outcome
  buffers : t.after.buffers = t'.after.buffers
  results : t.IsLoggable → t'.IsLoggable →
    t.result.map Receipt.typeless = t'.result.map Receipt.typeless
  types : t.IsLoggable → t'.IsLoggable → t.fragment.messageType = t'.fragment.messageType →
    t.result = t'.result

/-- A receipt with the type of its own fragment, or with the one that its message carries. -/
structure IsTyped (r : Reassembler) (start : Reassembly.State) (before : List Turn) (t : Turn)
    (receipt : Receipt) : Prop where
  own : receipt.completed = false ∨ t.fragment.messageType ≠ noMessageType →
    receipt.messageType = t.fragment.messageType
  carried : receipt.completed = true → t.fragment.messageType = noMessageType →
    ∃ part key, r.check (deliveryOf t.fragment) = .ok (part, key) ∧
      r.Carries start (before.map event ++ [t.event]) key receipt.messageType

end Turn

theorem typeless_receiptOf (same : deliveryOf f = deliveryOf f') (progress : Progress) :
    (receiptOf f progress).typeless = (receiptOf f' progress).typeless := by
  have payload : f.payload = f'.payload := congrArg Delivery.contents same
  cases progress with
  | pending => simp [receiptOf, waiting, Receipt.typeless, payload]
  | complete m residue => simp [receiptOf, completing, Receipt.typeless, payload]

theorem receiptOf_congr (same : deliveryOf f = deliveryOf f')
    (type : f.messageType = f'.messageType) (progress : Progress) :
    receiptOf f progress = receiptOf f' progress := by
  have payload : f.payload = f'.payload := congrArg Delivery.contents same
  cases progress with
  | pending => simp [receiptOf, waiting, payload, type]
  | complete m residue => simp [receiptOf, completing, payload, type]

theorem isSome_turn (r : Reassembler) (s : State) (now : Int) (f : Fragment) :
    (turn r s now f).after.log.isSome = s.log.isSome :=
  isSome_conclude ..

theorem result_turn (r : Reassembler) (s : State) (now : Int) (f : Fragment) :
    (turn r s now f).result = (conclude s.log now f (answerOf (turn r s now f).outcome)).1 :=
  congrArg Prod.fst (handle_eq r now s f)

theorem turn_alike (buffers : s.buffers = s'.buffers) (logged : s.log.isSome = s'.log.isSome)
    (same : deliveryOf f = deliveryOf f') : (turn r s now f).IsAlike (turn r s' now f') := by
  have answer :
      r.handle now s.buffers (deliveryOf f) = r.handle now s'.buffers (deliveryOf f') := by
    rw [buffers, same]
  have outcome : (turn r s now f).outcome = (turn r s' now f').outcome := congrArg Prod.fst answer
  have results : (turn r s now f).IsLoggable → (turn r s' now f').IsLoggable →
      (∃ e, (turn r s now f).result = .error e ∧ (turn r s' now f').result = .error e) ∨
      (∃ progress, (turn r s now f).result = .ok (receiptOf f progress) ∧
        (turn r s' now f').result = .ok (receiptOf f' progress)) := by
    intro suits suits'
    rw [Turn.IsLoggable, isSome_turn] at suits suits'
    rw [← outcome] at suits'
    rw [result_turn, result_turn, ← outcome]
    exact conclude_alike same logged (fun m residue => Reassembler.isWritable_of_complete) suits
      suits'
  refine ⟨outcome, congrArg Prod.snd answer, fun suits suits' => ?_, fun suits suits' type => ?_⟩
  · rcases results suits suits' with ⟨e, one, two⟩ | ⟨progress, one, two⟩
    · rw [one, two]
    · rw [one, two]
      exact congrArg Except.ok (typeless_receiptOf same progress)
  · rcases results suits suits' with ⟨e, one, two⟩ | ⟨progress, one, two⟩
    · rw [one, two]
    · rw [one, two, receiptOf_congr same type]

/-- Two lists of fragments that agree, one by one, in their times and in the parts they bring. -/
def BringAlike (arrivals arrivals' : List (Int × Fragment)) : Prop :=
  List.Forall₂ (fun a a' => a.1 = a'.1 ∧ deliveryOf a.2 = deliveryOf a'.2) arrivals arrivals'

theorem turns_alike {arrivals arrivals' : List (Int × Fragment)} (buffers : s.buffers = s'.buffers)
    (logged : s.log.isSome = s'.log.isSome) (same : BringAlike arrivals arrivals') :
    List.Forall₂ Turn.IsAlike (turns r s arrivals) (turns r s' arrivals') := by
  induction same generalizing s s' with
  | nil => exact .nil
  | @cons a a' _ _ first _ ih =>
    obtain ⟨now, f⟩ := a
    obtain ⟨now', f'⟩ := a'
    have time : now = now' := first.1
    subst time
    have alike : (turn r s now f).IsAlike (turn r s' now f') := turn_alike buffers logged first.2
    refine .cons alike (ih alike.buffers ?_)
    rw [isSome_turn, isSome_turn, logged]

/-- The type of a receipt is said by the fragment, or it was said by a first part before. -/
theorem turn_isTyped {start : Reassembly.State} {before : List Turn} {receipt : Receipt}
    (headed : r.IsHeaded start (before.map Turn.event) s.buffers)
    (given : (turn r s now f).result = .ok receipt) :
    (turn r s now f).IsTyped r start before receipt := by
  rw [result_turn] at given
  obtain ⟨progress, outcome, rfl⟩ := receipt_of_conclude given
  have answer : (r.handle now s.buffers (deliveryOf f)).1 = .ok progress := outcome
  cases progress with
  | pending => exact ⟨fun _ => rfl, fun complete => nomatch complete⟩
  | complete m residue =>
    refine ⟨fun own => ?_, fun _ none => ?_⟩
    · rcases own with pending | given
      · cases pending
      · exact if_pos given
    · have type : (completing f m).messageType = m.messageType := if_neg (not_not_intro none)
      cases checked : r.check (deliveryOf f) with
      | error e =>
        rw [Reassembler.handle_of_check_error checked] at answer
        cases answer
      | ok result =>
        obtain ⟨part, key⟩ := result
        refine ⟨part, key, checked, ?_⟩
        show r.Carries start _ key (completing f m).messageType
        rw [type]
        exact headed.carries_of_complete checked answer

theorem turns_isTyped {start : Reassembly.State} {done before later : List Turn} {t : Turn}
    {arrivals : List (Int × Fragment)} {receipt : Receipt}
    (headed : r.IsHeaded start (done.map Turn.event) s.buffers)
    (cut : turns r s arrivals = before ++ t :: later) (given : t.result = .ok receipt) :
    t.IsTyped r start (done ++ before) receipt := by
  induction arrivals generalizing s done before with
  | nil => simp [turns] at cut
  | cons arrival arrivals ih =>
    obtain ⟨now, f⟩ := arrival
    rw [turns] at cut
    cases before with
    | nil =>
      cases cut
      rw [List.append_nil]
      exact turn_isTyped headed given
    | cons first before =>
      obtain ⟨rfl, rest⟩ := List.cons.inj cut
      have next : r.IsHeaded start ((done ++ [turn r s now f]).map Turn.event)
          (turn r s now f).after.buffers := by
        rw [List.map_append]
        exact headed.handle now (deliveryOf f)
      have typed := ih next rest
      rwa [List.append_assoc] at typed

theorem isSome_of_mem_turns {arrivals : List (Int × Fragment)} {t : Turn}
    (h : t ∈ turns r s arrivals) : t.after.log.isSome = s.log.isSome := by
  induction arrivals generalizing s with
  | nil => cases h
  | cons arrival arrivals ih =>
    rcases List.mem_cons.mp h with rfl | later
    · exact isSome_turn ..
    · exact (ih later).trans (isSome_turn ..)

/-- Without a log there is nothing to write, and what a request says can always be written. -/
theorem isLoggable_of_mem_turns {arrivals : List (Int × Fragment)} {t : Turn}
    (h : t ∈ turns r s arrivals)
    (usual : s.log = none ∨ ∃ body, Fragment.ofBody body = .ok t.fragment) : t.IsLoggable := by
  intro kept m residue _
  rcases usual with unlogged | ⟨body, read⟩
  · rw [isSome_of_mem_turns h, unlogged] at kept
    cases kept
  · exact hasWritableNumbers_of_ofBody read

/-- What submissions say of type and time leaves the buffers as they are, at every step, and the
receipts but for their own types, at every step whose events can be logged. -/
theorem overrides_confined {arrivals arrivals' : List (Int × Fragment)}
    (buffers : s.buffers = s'.buffers) (logged : s.log.isSome = s'.log.isSome)
    (same : BringAlike arrivals arrivals') :
    List.Forall₂ Turn.IsAlike (turns r s arrivals) (turns r s' arrivals') ∧
      (∀ t ∈ turns r s arrivals,
        s.log = none ∨ (∃ body, Fragment.ofBody body = .ok t.fragment) → t.IsLoggable) ∧
      ∀ before t later receipt, turns r s arrivals = before ++ t :: later →
        t.result = .ok receipt → t.IsTyped r s.buffers before receipt := by
  have headed : r.IsHeaded s.buffers (([] : List Turn).map Turn.event) s.buffers :=
    Reassembler.isHeaded_start r s.buffers
  exact ⟨turns_alike buffers logged same, fun t => isLoggable_of_mem_turns,
    fun before t later receipt => turns_isTyped headed⟩

/-- A submission of the only part of a message, which says that its type is five. -/
def lone (type : Int) : Fragment where
  sender := Reassembler.straggler.sender
  payload := [0, 0, 0, 9, 0, 0, 1, 1, 0, 0, 0, 5, 0, 0, 0, 0, 0, 0, 0, 7, 65, 0]
  messageType := type

theorem overrides_confined_lone :
    BringAlike [(0, lone 0), (5, lone 7)] [(0, lone 77), (5, lone 7)] ∧
      List.Forall₂ Turn.IsAlike (turns Reassembler.narrow {} [(0, lone 0), (5, lone 7)])
        (turns Reassembler.narrow {} [(0, lone 77), (5, lone 7)]) := by
  have same : BringAlike [(0, lone 0), (5, lone 7)] [(0, lone 77), (5, lone 7)] :=
    .cons ⟨rfl, rfl⟩ (.cons ⟨rfl, rfl⟩ .nil)
  exact ⟨same, (overrides_confined rfl rfl same).1⟩

/-- A log that is open and empty. -/
def journal : EventLog where
  levels := 10
  runId := "desk"
  role := EventLog.defaultRole

/-- The same submission with a time that cannot be written. -/
def untimely : Fragment := { lone 0 with timestampNs := some Integer.unwritable }

/-- What both of them submit. -/
def loneMessage : Message where
  sender := Reassembler.straggler.sender
  payload := [65]
  messageType := 5
  timestampNs := 7
  messageId := 9
  fingerprint := []

/-- The only part of a message completes it at any time, and no clock is written for it. -/
theorem outcome_lone (now type : Int) :
    (Reassembler.narrow.handle now {} (deliveryOf (lone type))).1
      = .ok (.complete loneMessage none) :=
  rfl

theorem result_lone {f : Fragment} (same : deliveryOf f = deliveryOf (lone 0))
    (log : Option EventLog) (now : Int) :
    (turn Reassembler.narrow { log } now f).result
      = (conclude log now f (answerOf (.ok (.complete loneMessage none)))).1 := by
  have complete : (turn Reassembler.narrow { log } now f).outcome
      = .ok (.complete loneMessage none) := by
    show (Reassembler.narrow.handle now {} (deliveryOf f)).1 = _
    rw [same, outcome_lone]
  rw [result_turn, complete]

/-- What is submitted differs in the time alone, and one of the two gets no receipt where a log is
kept. At a time that cannot be written, it is the log alone that withholds the receipt. -/
theorem override_noticed :
    BringAlike [(0, lone 0)] [(0, untimely)] ∧
      (∃ receipt, (turn Reassembler.narrow { log := some journal } 0 (lone 0)).result
        = .ok receipt) ∧
      (turn Reassembler.narrow { log := some journal } 0 untimely).result
        = .error (.unlogged (.number .tooLong)) ∧
      (turn Reassembler.narrow {} Integer.unwritable (lone 7)).result
        = .ok (receiptOf (lone 7) (.complete loneMessage none)) ∧
      (turn Reassembler.narrow { log := some journal } Integer.unwritable (lone 7)).result
        = .error (.unlogged (.number .tooLong)) := by
  have same : deliveryOf (lone 0) = deliveryOf untimely := rfl
  have typed : deliveryOf (lone 7) = deliveryOf (lone 0) := rfl
  have zero : Integer.isWritable 0 = true := Integer.isWritable_of_lt (Int.le_refl 0) (by decide)
  refine ⟨.cons ⟨rfl, same⟩ .nil, ?_, ?_, ?_, ?_⟩
  · have size : Integer.isWritable Reassembler.narrow.maxFragmentSize = true :=
      Integer.isWritable_of_lt (n := 64) (by decide) (by decide)
    have bounded : loneMessage.IsBounded := by constructor <;> decide
    have orderly : Reassembler.IsOrderly (deliveryOf (lone 0))
        (Reassembler.narrow.handle 0 {} (deliveryOf (lone 0))).1 := by
      rw [outcome_lone]
      exact .complete loneMessage none bounded
    have numbers : HasWritableNumbers (lone 0) := ⟨zero, fun n none => nomatch none⟩
    obtain ⟨receipt, _, handled, concludes⟩ :=
      @handle_concludes Reassembler.narrow 0 { log := some journal } _ orderly size zero numbers
    rw [outcome_lone] at concludes
    cases concludes
    refine ⟨receiptOf (lone 0) (.complete loneMessage none), ?_⟩
    rw [turn, handled]
  · rw [result_lone same.symm]
    refine conclude_of_not_writes rfl _ (List.mem_cons_of_mem _ List.mem_cons_self) ?_
    exact @EventLog.writes_of_get? journal 0 _ "timestamp_ns" _ rfl Integer.isWritable_unwritable
  · exact result_lone typed none Integer.unwritable
  · rw [result_lone typed]
    refine conclude_of_not_writes rfl _ List.mem_cons_self ?_
    exact @EventLog.writes_of_get? journal _ _ "ts_ms" _ rfl Integer.isWritable_unwritable

end Intake

end PartRelay
