import PartRelay.Command.Split
import PartRelay.Proofs.Part.Limits

/-!
# Faults of a split

What a split ends with. Within the limits of the part size it gives parts, save for contents that
no header describes and sizes that memory has no room for. Outside them it refuses the message,
which is the one fault of a split that the command reports.
-/

namespace PartRelay

namespace Command

open PartRelay.Part (FirstOverflows Overflows WithinLimits firstCapacity)

section Payload

variable {machine : Machine} {d : Directory} {a : SplitArguments} {size : Int} {payload : Bytes}

theorem ending_deliver_ne (path : Option Text) (t : Text) :
    (deliver d path t).ending ≠ .exit 1 := by
  unfold deliver
  split
  · exact fun h => by cases h
  · exact fun h => by cases h
  · split <;> exact fun h => by cases h

/-- The command exits with 1 just where the message was refused, in words, and not over a number
that it has not been given. -/
theorem ending_splitPayload :
    (splitPayload machine d a size payload).ending = .exit 1 ↔
      ∃ e, Part.split machine.memory payload size (a.messageId.getD noField)
          (a.messageType.getD noField) ((a.timestampNs.map (·.getD machine.ns)).getD noField)
            = .error (.part e) ∧
        lacks a e = false := by
  simp only [splitPayload]
  split
  next e refused =>
    rw [refused]
    by_cases lacking : lacks a e = true
    · rw [if_pos lacking]
      simp [Outcome.broken, lacking]
    · rw [if_neg lacking]
      simp [Outcome.failed, lacking]
  next e unspoken refused =>
    rw [refused]
    constructor
    · exact fun h => by cases h
    · rintro ⟨e', h, _⟩
      cases h
      exact absurd rfl (unspoken e')
  next parts given =>
    rw [given]
    constructor
    · exact fun h => absurd h (ending_deliver_ne _ _)
    · rintro ⟨_, h, _⟩
      cases h

end Payload

/-- A split gives parts just where the payload and the numbers are within the limits of the size,
the contents of the parts within those of their headers, and there is room for the parts in memory.
Outside the limits it refuses the message in words, unless these name a number that cannot be
written; and that is where the command exits with 1. -/
theorem split_faults (machine : Machine) (payload : Bytes)
    (size messageId messageType timestampNs : Int) :
    ((∃ parts, Part.split machine.memory payload size messageId messageType timestampNs
        = .ok parts) ↔
      WithinLimits payload size messageId messageType timestampNs ∧
        ¬ Overflows payload.length size ∧ size ≤ machine.memory.size) ∧
    (Part.split machine.memory payload size messageId messageType timestampNs
        = .error (.header .length) ↔
      WithinLimits payload size messageId messageType timestampNs ∧
        Overflows payload.length size ∧
          (FirstOverflows payload.length size ∨ size ≤ machine.memory.size)) ∧
    ((∃ e, Part.split machine.memory payload size messageId messageType timestampNs
        = .error (.memory e)) ↔
      WithinLimits payload size messageId messageType timestampNs ∧
        ¬ FirstOverflows payload.length size ∧ machine.memory.size < size) ∧
    (∀ e, Part.split machine.memory payload size messageId messageType timestampNs
        = .error (.memory e) →
      machine.memory.size < firstCapacity size - payload.length →
        e = .ofCount (firstCapacity size - payload.length)) ∧
    ((∃ e, Part.split machine.memory payload size messageId messageType timestampNs
        = .error (.ofError e)) ↔
      ¬ WithinLimits payload size messageId messageType timestampNs) ∧
    (¬ WithinLimits payload size messageId messageType timestampNs →
      Integer.isWritable size = true → payload.length < Memory.lengthLimit →
        ∃ e, Part.split machine.memory payload size messageId messageType timestampNs
          = .error (.part e)) ∧
    ∀ (d : Directory) (a : SplitArguments), a.messageId = some messageId →
      a.messageType = some messageType →
        a.timestampNs.map (·.getD machine.ns) = some timestampNs →
          ((splitPayload machine d a size payload).ending = .exit 1 ↔
            ∃ e, Part.split machine.memory payload size messageId messageType timestampNs
              = .error (.part e)) := by
  refine ⟨Part.exists_split_iff, Part.split_eq_header_length_iff, Part.exists_memory_error_iff,
    fun e => Part.memory_error_of_padding, Part.exists_refusal_iff, Part.exists_refusal_said,
    fun d a id type time => ?_⟩
  have complete : ∀ e, lacks a e = false := by
    intro e
    have some : a.timestampNs.isNone = false := by
      cases given : a.timestampNs with
      | none =>
        rw [given] at time
        cases time
      | some => rfl
    cases e <;> simp [lacks, id, type, some]
  rw [ending_splitPayload, id, type, time]
  simp only [Option.getD_some, complete, and_true]

/-- A machine with room for some parts. -/
def desktop : Machine where
  ms := 0
  ns := 8
  memory := .gigabyte
  levels := ⟨10, by decide⟩

/-- Three bytes are split where the first part has room for one of them, and refused where it has
none. -/
theorem split_faults_three :
    (∃ parts, Part.split desktop.memory [7, 7, 7] 22 9 5 8 = .ok parts) ∧
      (splitPayload desktop [] ⟨none, [], none, none, some 9, some 5, some none, none⟩ 21
        [7, 7, 7]).ending = .exit 1 := by
  obtain ⟨given, _⟩ := split_faults desktop [7, 7, 7] 22 9 5 8
  obtain ⟨_, _, _, _, _, refused, ends⟩ := split_faults desktop [7, 7, 7] 21 9 5 8
  have outside : ¬ WithinLimits [7, 7, 7] 21 9 5 8 := fun within => absurd within.room (by decide)
  have within : WithinLimits [7, 7, 7] 22 9 5 8 := by constructor <;> decide
  have written : Integer.isWritable 21 = true :=
    Integer.isWritable_of_lt (by decide) (by decide)
  exact ⟨given.mpr ⟨within, by decide, by decide⟩,
    (ends [] _ rfl rfl rfl).mpr (refused outside written (by decide))⟩

/-- Contents that are a byte longer than a header can say, at a size with room for them. -/
theorem split_overlong :
    WithinLimits (List.replicate 0x10000 0) 0x10015 9 5 8 ∧
      ∀ memory, Part.split memory (List.replicate 0x10000 0) 0x10015 9 5 8
        = .error (.header .length) := by
  have within : WithinLimits (List.replicate 0x10000 0) 0x10015 9 5 8 := by
    constructor <;> (try rw [List.length_replicate]) <;> decide
  have first : FirstOverflows (List.replicate 0x10000 (0 : UInt8)).length 0x10015 := by
    rw [List.length_replicate]
    decide
  exact ⟨within, fun memory => Part.split_eq_header_length within (.inl first) (.inl first)⟩

end Command

end PartRelay
