import PartRelay.Proofs.Reassembly.Reloading

/-!
# Restarts

A reassembler may be replaced by a new one over the same store and clock. The new one starts with
an empty index, so that the two prune differently from then on; all else they read from the store.
Until `ttlMs` have gone by no buffer is stale by either index, and nothing shows of a restart.
-/

namespace PartRelay.Reassembly

/-! ## Lives -/

/-- The world in which a new reassembler has taken the place of the one before. -/
def World.restart (w : World) : World := ⟨w.now, Reassembler.restart w.state⟩

/-- What shows of a step: what was done and with which answer, and the raw store after it. -/
structure Entry where
  event : Event
  store : Store

def Operation.duration : Operation → Int
  | .advance ms => max 0 ms
  | _ => 0

/-- The time that operations take in all. -/
def elapsed : List Operation → Int
  | [] => 0
  | op :: ops => op.duration + elapsed ops

theorem elapsed_append (ops later : List Operation) :
    elapsed (ops ++ later) = elapsed ops + elapsed later := by
  induction ops with
  | nil => exact (Int.zero_add _).symm
  | cons op ops ih => rw [List.cons_append, elapsed, elapsed, ih, Int.add_assoc]

theorem elapsed_nonneg (ops : List Operation) : 0 ≤ elapsed ops := by
  induction ops with
  | nil => exact Int.le_refl 0
  | cons op ops ih =>
    have first : 0 ≤ op.duration := by
      cases op with
      | advance ms => exact Int.le_max_left 0 ms
      | _ => exact Int.le_refl 0
    exact Int.add_nonneg first ih

namespace Reassembler

/-- What shows of a run. -/
def record (r : Reassembler) (w : World) : List Operation → List Entry
  | [] => []
  | op :: ops =>
    ⟨⟨w.now, op, (r.step w op).1⟩, (r.step w op).2.state.store⟩ :: record r (r.step w op).2 ops

/-- What shows of lives, one after the other: each ends with a restart. -/
def recordLives (r : Reassembler) (w : World) : List (List Operation) → List Entry
  | [] => []
  | ops :: lives => r.record w ops ++ recordLives r (r.run w ops).restart lives

variable {r : Reassembler} {now start : Int} {s t : State} {key : Text} {d : Delivery} {part : Part}

theorem record_append (w : World) (ops later : List Operation) :
    r.record w (ops ++ later) = r.record w ops ++ r.record (r.run w ops) later := by
  induction ops generalizing w with
  | nil => rfl
  | cons op ops ih => exact congrArg _ (ih _)

theorem now_step (w : World) (op : Operation) : (r.step w op).2.now = w.now + op.duration := by
  cases op with
  | advance ms => rfl
  | _ => exact (Int.add_zero _).symm

/-! ## States without an old buffer -/

/-- Nothing in the index or in the store is older than `start`. -/
structure IsSince (r : Reassembler) (start : Int) (s : State) : Prop where
  listed : ∀ entry ∈ s.active, start ≤ entry.2
  stored : ∀ key b, r.load s key = .ok (some b) → start ≤ b.createdMs

theorem isSince_empty (r : Reassembler) (start : Int) : IsSince r start {} where
  listed := fun _ none => absurd none List.not_mem_nil
  stored := by
    intro key b loaded
    rw [(lacks_empty r key).load] at loaded
    cases loaded

theorem IsSince.restart (h : IsSince r start s) : IsSince r start (restart s) where
  listed := fun _ none => absurd none List.not_mem_nil
  stored := h.stored

theorem IsSince.delete (h : IsSince r start s) (key : Text) : IsSince r start (r.delete s key) where
  listed := fun entry he => h.listed entry (mem_active_delete.mp he).1
  stored := by
    intro other b loaded
    by_cases same : key = other
    · rw [same, (lacks_delete r s other).load] at loaded
      cases loaded
    · exact h.stored other b ((sameSlot_delete same).load.trans loaded)

theorem IsSince.prune (h : IsSince r start s) (now : Int) : IsSince r start (r.prune now s) := by
  rw [Reassembler.prune]
  generalize r.stale now s = keys
  induction keys generalizing s with
  | nil => exact h
  | cons key keys ih => exact ih (h.delete key)

theorem IsSince.createdMs_of_extend {b : Buffer} {message : Option Message}
    (h : IsSince r start s) (past : start ≤ now)
    (extended : r.extend now s d part key = .ok (b, message)) : start ≤ b.createdMs := by
  obtain ⟨opened, found, rfl, _⟩ := extend_eq_ok extended
  rw [Buffer.createdMs_extended]
  rcases bufferFor_eq_ok found with loaded | ⟨_, rfl⟩
  · exact h.stored key opened loaded
  · exact past

theorem IsSince.handle (h : IsSince r start s) (past : start ≤ now) (d : Delivery) :
    IsSince r start (r.handle now s d).2 := by
  cases checked : r.check d with
  | error e =>
    rw [handle_of_check_error checked]
    exact h
  | ok result =>
    obtain ⟨part, key⟩ := result
    have pruned := h.prune now
    rcases handle_cases now s checked with ⟨e, eq⟩ | ⟨b, t, extended, saved, eq⟩ | ⟨b, m, _, eq⟩
    · rw [eq]
      exact pruned
    · rw [eq]
      have created := pruned.createdMs_of_extend past extended
      refine ⟨fun entry he => ?_, fun other b' loaded => ?_⟩
      · rcases (mem_active_save saved).mp he with old | ⟨_, new, _⟩
        · exact pruned.listed entry old
        · exact new ▸ created
      · by_cases same : key = other
        · rw [← same] at loaded
          rw [load_of_extend checked extended saved loaded]
          exact created
        · exact pruned.stored other b' ((sameSlot_save saved same).load.trans loaded)
    · rw [eq]
      exact pruned.delete key

theorem IsSince.step {w : World} (h : IsSince r start w.state) (past : start ≤ w.now)
    (op : Operation) : IsSince r start (r.step w op).2.state := by
  cases op with
  | deliver d => exact h.handle past d
  | prune => exact h.prune w.now
  | advance ms => exact h

theorem IsSince.stale_eq_nil (h : IsSince r start s) (young : now < start + r.ttlMs) :
    r.stale now s = [] := by
  rw [List.eq_nil_iff_forall_not_mem]
  intro key hk
  obtain ⟨created, opened, expired⟩ := mem_stale_iff.mp hk
  have since : start ≤ created := h.listed _ opened
  omega

theorem prune_of_stale_eq_nil (h : r.stale now s = []) : r.prune now s = s := by
  rw [prune, h]
  rfl

/-! ## The store is all that is read -/

theorem load_congr (same : s.store = t.store) (key : Text) : r.load s key = r.load t key := by
  rw [load, load, same]

theorem extend_congr (same : s.store = t.store) (now : Int) (d : Delivery) (part : Part)
    (key : Text) : r.extend now s d part key = r.extend now t d part key := by
  rw [extend, extend, bufferFor, bufferFor, load_congr same]

theorem save_congr (same : s.store = t.store) (now : Int) (key : Text) (b : Buffer) :
    (∃ e, r.save now s key b = .error e ∧ r.save now t key b = .error e) ∨
    (∃ s' t', r.save now s key b = .ok s' ∧ r.save now t key b = .ok t' ∧ s'.store = t'.store) := by
  unfold save
  rw [same]
  split
  next e _ => exact .inl ⟨_, rfl, rfl⟩
  split
  next e _ => exact .inl ⟨_, rfl, rfl⟩
  next store _ => exact .inr ⟨_, _, rfl, rfl, rfl⟩

/-- Where no buffer is stale by the index, the index decides nothing. -/
theorem handle_congr (same : s.store = t.store) (left : r.stale now s = [])
    (right : r.stale now t = []) (d : Delivery) :
    (r.handle now s d).1 = (r.handle now t d).1 ∧
      (r.handle now s d).2.store = (r.handle now t d).2.store := by
  unfold handle
  split
  · exact ⟨rfl, same⟩
  next part key _ =>
    simp only [prune_of_stale_eq_nil left, prune_of_stale_eq_nil right, extend_congr same now d]
    split
    · exact ⟨rfl, same⟩
    next b _ =>
      rcases save_congr (r := r) same now key b with ⟨e, one, two⟩ | ⟨s', t', one, two, written⟩
      · simp only [one, two]
        exact ⟨trivial, same⟩
      · simp only [one, two]
        exact ⟨trivial, written⟩
    · exact ⟨rfl, congrArg (fun store => r.view.delete store key bufferVersion) same⟩

theorem step_congr (same : s.store = t.store) (left : r.stale now s = [])
    (right : r.stale now t = []) (op : Operation) :
    (r.step ⟨now, s⟩ op).1 = (r.step ⟨now, t⟩ op).1 ∧
      (r.step ⟨now, s⟩ op).2.now = (r.step ⟨now, t⟩ op).2.now ∧
      (r.step ⟨now, s⟩ op).2.state.store = (r.step ⟨now, t⟩ op).2.state.store := by
  cases op with
  | deliver d =>
    obtain ⟨outcome, store⟩ := handle_congr same left right d
    exact ⟨congrArg Answer.handled outcome, rfl, store⟩
  | prune =>
    refine ⟨?_, rfl, ?_⟩
    · show Answer.pruned _ = Answer.pruned _
      rw [pruneCount, pruneCount, left, right]
    · show (r.prune now s).store = (r.prune now t).store
      rw [prune_of_stale_eq_nil left, prune_of_stale_eq_nil right, same]
  | advance ms => exact ⟨rfl, rfl, same⟩

/-! ## Two runs side by side -/

/-- Two worlds with one clock and one store, in neither of which anything is older than `start`. -/
structure Alike (r : Reassembler) (start : Int) (v w : World) : Prop where
  now : v.now = w.now
  past : start ≤ w.now
  store : v.state.store = w.state.store
  left : IsSince r start v.state
  right : IsSince r start w.state

variable {v w : World}

theorem Alike.restart (h : Alike r start v w) : Alike r start v.restart w :=
  ⟨h.now, h.past, h.store, h.left.restart, h.right⟩

theorem Alike.step (h : Alike r start v w) (young : w.now < start + r.ttlMs) (op : Operation) :
    (r.step v op).1 = (r.step w op).1 ∧ Alike r start (r.step v op).2 (r.step w op).2 := by
  have left := h.left.step (h.now ▸ h.past) op
  have right := h.right.step h.past op
  have later : start ≤ (r.step w op).2.now := Int.le_trans h.past (r.now_le_step w op)
  obtain ⟨time, s⟩ := v
  obtain ⟨time', t⟩ := w
  obtain rfl : time = time' := h.now
  obtain ⟨answer, now, store⟩ :=
    step_congr h.store (h.left.stale_eq_nil young) (h.right.stale_eq_nil young) op
  exact ⟨answer, now, later, store, left, right⟩

theorem Alike.run (h : Alike r start v w) {ops : List Operation}
    (young : w.now + elapsed ops < start + r.ttlMs) :
    r.record v ops = r.record w ops ∧ Alike r start (r.run v ops) (r.run w ops) ∧
      (r.run w ops).now = w.now + elapsed ops := by
  induction ops generalizing v w with
  | nil => exact ⟨rfl, h, (Int.add_zero _).symm⟩
  | cons op ops ih =>
    have onward := r.now_step w op
    have forward := r.now_le_step w op
    have rest := elapsed_nonneg ops
    rw [elapsed] at young ⊢
    obtain ⟨answer, after⟩ := h.step (by omega) op
    obtain ⟨record, final, now⟩ := ih after (by omega)
    refine ⟨?_, final, ?_⟩
    · rw [Reassembler.record, Reassembler.record, answer, h.now, after.store, record]
    · rw [Reassembler.run, now, onward, Int.add_assoc]

theorem Alike.lives (h : Alike r start v w) {lives : List (List Operation)}
    (young : w.now + elapsed lives.flatten < start + r.ttlMs) :
    r.recordLives v lives = r.record w lives.flatten := by
  -- The uninterrupted run is cut where the restarts are.
  induction lives generalizing v w with
  | nil => rfl
  | cons ops lives ih =>
    have rest := elapsed_nonneg lives.flatten
    rw [List.flatten_cons, elapsed_append] at young
    have first : w.now + elapsed ops < start + r.ttlMs := by omega
    obtain ⟨record, after, now⟩ := h.run first
    rw [recordLives, List.flatten_cons, record_append, record, ih after.restart (by omega)]

/-- As long as less time goes by than buffers have, restarts at any points of a run from the empty
store change no answer and nothing in the store. -/
theorem recordLives_eq_record {root : View} {maxFragmentSize ttlMs : Int}
    (made : create root maxFragmentSize ttlMs = .ok r) (start : Int) {lives : List (List Operation)}
    (short : elapsed lives.flatten < ttlMs) :
    r.recordLives ⟨start, {}⟩ lives = r.record ⟨start, {}⟩ lives.flatten := by
  obtain ⟨_, _, _, ttl, _⟩ := create_eq_ok made
  have empty : Alike r start ⟨start, {}⟩ ⟨start, {}⟩ :=
    ⟨rfl, Int.le_refl _, rfl, isSince_empty r start, isSince_empty r start⟩
  refine empty.lives ?_
  show start + _ < _
  omega

/-- Three lives of one millisecond less than the buffer of the straggler has. -/
def straggling : List (List Operation) :=
  [[.deliver straggler, .advance 400], [], [.prune, .deliver straggler, .advance 599]]

theorem recordLives_straggling :
    elapsed straggling.flatten < 1000 ∧
      narrow.recordLives ⟨0, {}⟩ straggling = narrow.record ⟨0, {}⟩ straggling.flatten := by
  have made : create View.shallow 64 1000 = .ok narrow := rfl
  exact ⟨by decide, recordLives_eq_record made 0 (by decide)⟩

end Reassembler

end PartRelay.Reassembly
