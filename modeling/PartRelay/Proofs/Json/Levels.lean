import PartRelay.Json.Printer

/-!
# Levels of a value

How deep arrays and objects stand in one another, and what that means for writing: a value that has
no more levels than there may be can be written just where its integers can, and one with more of
them cannot.
-/

namespace PartRelay.Json

mutual

/-- How many arrays and objects stand in one another. -/
def depth : Json → Nat
  | .array items => itemsDepth items + 1
  | .object fields => fieldsDepth fields + 1
  | _ => 0

def itemsDepth : List Json → Nat
  | [] => 0
  | item :: items => max (depth item) (itemsDepth items)

def fieldsDepth : List (Text × Json) → Nat
  | [] => 0
  | (_, value) :: fields => max (depth value) (fieldsDepth fields)

end

/-! ## What keeps a value from being written -/

/-- Of two faults the first is told. -/
private theorem or_tooLong (first second : Bool) :
    (if first then none else some (WriteError.number .tooLong)).or
      (if second then none else some (.number .tooLong))
      = if first && second then none else some (.number .tooLong) := by
  cases first <;> cases second <;> rfl

mutual

/-- With levels enough, nothing but its integers keeps a value from being written. -/
theorem fault?_of_depth_le {levels : Nat} {j : Json} (h : j.depth ≤ levels) :
    j.fault? levels = if j.isWritable then none else some (.number .tooLong) := by
  match j with
  | .null | .bool _ | .float _ | .string _ => simp [fault?, isWritable]
  | .int n => rw [fault?, isWritable]
  | .array items =>
    rw [depth] at h
    obtain ⟨levels, rfl⟩ := Nat.exists_eq_add_of_lt h
    rw [fault?, isWritable]
    exact itemsFault?_of_depth_le (Nat.le_add_right ..)
  | .object fields =>
    rw [depth] at h
    obtain ⟨levels, rfl⟩ := Nat.exists_eq_add_of_lt h
    rw [fault?, isWritable]
    exact fieldsFault?_of_depth_le (Nat.le_add_right ..)

theorem itemsFault?_of_depth_le {levels : Nat} {items : List Json}
    (h : itemsDepth items ≤ levels) :
    itemsFault? levels items = if areWritable items then none else some (.number .tooLong) := by
  match items with
  | [] => rfl
  | item :: items =>
    rw [itemsDepth, Nat.max_le] at h
    rw [itemsFault?, areWritable, fault?_of_depth_le h.1, itemsFault?_of_depth_le h.2, or_tooLong]

theorem fieldsFault?_of_depth_le {levels : Nat} {fields : List (Text × Json)}
    (h : fieldsDepth fields ≤ levels) :
    fieldsFault? levels fields
      = if fieldsWritable fields then none else some (.number .tooLong) := by
  match fields with
  | [] => rfl
  | (key, value) :: fields =>
    rw [fieldsDepth, Nat.max_le] at h
    rw [fieldsFault?, fieldsWritable, fault?_of_depth_le h.1, fieldsFault?_of_depth_le h.2,
      or_tooLong]

end

mutual

/-- Where nothing else does, more levels than there may be keep a value from being written. -/
theorem fault?_of_lt_depth {levels : Nat} {j : Json} :
    j.isWritable = true → levels < j.depth → j.fault? levels = some .tooDeep := by
  match j with
  | .null | .bool _ | .int _ | .float _ | .string _ => exact fun _ h => nomatch h
  | .array items =>
    intro written h
    rw [depth, Nat.lt_succ_iff] at h
    cases levels with
    | zero => rfl
    | succ levels =>
      rw [isWritable] at written
      exact itemsFault?_of_lt_depth written h
  | .object fields =>
    intro written h
    rw [depth, Nat.lt_succ_iff] at h
    cases levels with
    | zero => rfl
    | succ levels =>
      rw [isWritable] at written
      exact fieldsFault?_of_lt_depth written h

theorem itemsFault?_of_lt_depth {levels : Nat} {items : List Json}
    (written : areWritable items = true) (h : levels < itemsDepth items) :
    itemsFault? levels items = some .tooDeep := by
  match items with
  | [] => cases h
  | item :: items =>
    rw [areWritable, Bool.and_eq_true] at written
    rw [itemsDepth] at h
    rw [itemsFault?]
    by_cases deep : levels < item.depth
    · rw [fault?_of_lt_depth written.1 deep]
      rfl
    · rw [fault?_of_depth_le (Nat.not_lt.mp deep), if_pos written.1]
      exact itemsFault?_of_lt_depth written.2 (by omega)

theorem fieldsFault?_of_lt_depth {levels : Nat} {fields : List (Text × Json)}
    (written : fieldsWritable fields = true) (h : levels < fieldsDepth fields) :
    fieldsFault? levels fields = some .tooDeep := by
  match fields with
  | [] => cases h
  | (key, value) :: fields =>
    rw [fieldsWritable, Bool.and_eq_true] at written
    rw [fieldsDepth] at h
    rw [fieldsFault?]
    by_cases deep : levels < value.depth
    · rw [fault?_of_lt_depth written.1 deep]
      rfl
    · rw [fault?_of_depth_le (Nat.not_lt.mp deep), if_pos written.1]
      exact fieldsFault?_of_lt_depth written.2 (by omega)

end

/-- A value of no more levels than there may be is written as it is, if its integers can be. -/
theorem renderWithin?_of_depth_le {levels : Nat} {j : Json} (h : j.depth ≤ levels) :
    j.renderWithin? levels = if j.isWritable then .ok j.render else .error (.number .tooLong) := by
  rw [renderWithin?, fault?_of_depth_le h]
  cases j.isWritable <;> rfl

theorem renderWithin?_of_lt_depth {levels : Nat} {j : Json} (written : j.isWritable = true)
    (h : levels < j.depth) : j.renderWithin? levels = .error .tooDeep := by
  rw [renderWithin?, fault?_of_lt_depth written h]

/-! ## Tables of fields -/

/-- Fields are nested as deep as each of them. -/
theorem depth_le_fieldsDepth {fields : Table Text Json} {key : Text} {value : Json}
    (h : fields.get? key = some value) : value.depth ≤ fieldsDepth fields := by
  induction fields with
  | nil => cases h
  | cons field fields ih =>
    obtain ⟨k, v⟩ := field
    rw [fieldsDepth]
    by_cases same : k = key
    · have here : v = value := by simpa [Table.get?, same] using h
      rw [here]
      exact Nat.le_max_left ..
    · have later : Table.get? fields key = some value := by simpa [Table.get?, same] using h
      exact Nat.le_trans (ih later) (Nat.le_max_right ..)

theorem fieldsDepth_set_le (fields : Table Text Json) (key : Text) (value : Json) :
    fieldsDepth (fields.set key value) ≤ max (fieldsDepth fields) value.depth := by
  induction fields with
  | nil =>
    show max value.depth 0 ≤ _
    omega
  | cons field fields ih =>
    obtain ⟨k, v⟩ := field
    rw [Table.set]
    split
    · rw [fieldsDepth, fieldsDepth]
      omega
    · rw [fieldsDepth, fieldsDepth]
      omega

theorem fieldsDepth_update_le (fields more : Table Text Json) :
    fieldsDepth (fields.update more) ≤ max (fieldsDepth fields) (fieldsDepth more) := by
  induction more generalizing fields with
  | nil =>
    show fieldsDepth fields ≤ _
    omega
  | cons field more ih =>
    obtain ⟨key, value⟩ := field
    have one := fieldsDepth_set_le fields key value
    have rest := ih (fields.set key value)
    rw [fieldsDepth]
    show fieldsDepth ((fields.set key value).update more) ≤ _
    omega

end PartRelay.Json
