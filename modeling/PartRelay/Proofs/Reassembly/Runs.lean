import PartRelay.Proofs.Sender
import PartRelay.Reassembly.Reassembler

/-!
# Runs

What one reassembler goes through: parts come in, buffers are pruned, time passes. A run leads from
one world to the next and leaves a history of what was done, when, and with which answer.
-/

namespace PartRelay.Reassembly

/-! ## Worlds and operations -/

/-- The clock, and what the reassembler keeps. -/
@[ext] structure World where
  now : Int
  state : State

inductive Operation where
  | deliver (delivery : Delivery)
  | prune
  /-- The clock goes on; it never goes back. -/
  | advance (ms : Int)

inductive Answer where
  | handled (outcome : Except Refusal Progress)
  | pruned (count : Nat)
  | advanced

/-- One operation of a run, with the time and the answer that it got. -/
structure Event where
  now : Int
  operation : Operation
  answer : Answer

/-- Whether what is delivered, if anything is, comes from a valid sender. -/
def Operation.HasValidSender : Operation → Prop
  | .deliver d => d.sender.IsValid
  | _ => True

/-- What is delivered, in order. -/
def deliveries (ops : List Operation) : List Delivery :=
  ops.filterMap fun
    | .deliver d => some d
    | _ => none

theorem mem_deliveries_iff {ops : List Operation} {d : Delivery} :
    d ∈ deliveries ops ↔ .deliver d ∈ ops := by
  rw [deliveries, List.mem_filterMap]
  constructor
  · rintro ⟨op, done, eq⟩
    cases op with
    | deliver d' =>
      cases eq
      exact done
    | prune => cases eq
    | advance ms => cases eq
  · exact fun done => ⟨.deliver d, done, rfl⟩

namespace Reassembler

def step (r : Reassembler) (w : World) : Operation → Answer × World
  | .deliver d => (.handled (r.handle w.now w.state d).1, ⟨w.now, (r.handle w.now w.state d).2⟩)
  | .prune => (.pruned (r.pruneCount w.now w.state), ⟨w.now, r.prune w.now w.state⟩)
  | .advance ms => (.advanced, ⟨w.now + max 0 ms, w.state⟩)

/-- The world that a list of operations leads to. -/
def run (r : Reassembler) (w : World) : List Operation → World
  | [] => w
  | op :: ops => run r (r.step w op).2 ops

/-- What happens on the way. -/
def history (r : Reassembler) (w : World) : List Operation → List Event
  | [] => []
  | op :: ops => ⟨w.now, op, (r.step w op).1⟩ :: history r (r.step w op).2 ops

variable (r : Reassembler) (w : World)

theorem run_append (ops later : List Operation) :
    r.run w (ops ++ later) = r.run (r.run w ops) later := by
  induction ops generalizing w with
  | nil => rfl
  | cons op ops ih => exact ih _

theorem history_append (ops later : List Operation) :
    r.history w (ops ++ later) = r.history w ops ++ r.history (r.run w ops) later := by
  induction ops generalizing w with
  | nil => rfl
  | cons op ops ih =>
    rw [List.cons_append, history, history, run, ih]
    rfl

theorem now_le_step (op : Operation) : w.now ≤ (r.step w op).2.now := by
  cases op with
  | deliver d => exact Int.le_refl _
  | prune => exact Int.le_refl _
  | advance ms =>
    show w.now ≤ w.now + max 0 ms
    omega

theorem now_le_run (ops : List Operation) : w.now ≤ (r.run w ops).now := by
  induction ops generalizing w with
  | nil => exact Int.le_refl _
  | cons op ops ih => exact Int.le_trans (r.now_le_step w op) (ih _)

/-- What is in a history was done in the run, at a time of the run. -/
theorem mem_history {ops : List Operation} {event : Event} (h : event ∈ r.history w ops) :
    event.operation ∈ ops ∧ w.now ≤ event.now ∧ event.now ≤ (r.run w ops).now := by
  induction ops generalizing w with
  | nil => cases h
  | cons op ops ih =>
    have onward := r.now_le_step w op
    rcases List.mem_cons.mp h with rfl | later
    · have rest := r.now_le_run (r.step w op).2 ops
      exact ⟨List.mem_cons_self, Int.le_refl _, Int.le_trans onward rest⟩
    · obtain ⟨done, after, before⟩ := ih _ later
      exact ⟨List.mem_cons_of_mem _ done, Int.le_trans onward after, before⟩

end Reassembler

end PartRelay.Reassembly
