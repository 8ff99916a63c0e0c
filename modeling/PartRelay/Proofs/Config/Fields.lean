import Mathlib.Data.List.DropRight
import PartRelay.Config.Settings
import PartRelay.Proofs.Json.ReadNumbers

/-!
# Settings from fields

Which settings the fields of an object give, and which field is the fault where they give none. A
value that was read always has a text. It has an integer unless it is of another kind, has no
bounds, is not a number, or is a text that is no integer.
-/

namespace PartRelay

/-! ## Values -/

namespace Json

variable {j : Json} {e : IntegerError}

theorem areWritable_iff {items : List Json} :
    areWritable items = true ↔ ∀ j ∈ items, j.isWritable = true := by
  induction items with
  | nil => simp [areWritable]
  | cons j items ih => rw [areWritable, Bool.and_eq_true, ih, List.forall_mem_cons]

theorem fieldsWritable_iff {fields : List (Text × Json)} :
    fieldsWritable fields = true ↔ ∀ field ∈ fields, field.2.isWritable = true := by
  induction fields with
  | nil => simp [fieldsWritable]
  | cons field fields ih => rw [fieldsWritable, Bool.and_eq_true, ih, List.forall_mem_cons]

theorem IsMeasured.isWritable (h : j.IsMeasured) : j.isWritable = true := by
  induction h with
  | int h => exact h
  | array h ih =>
    rw [Json.isWritable]
    exact areWritable_iff.mpr ih
  | object h ih =>
    rw [Json.isWritable]
    exact fieldsWritable_iff.mpr ih
  | _ => rfl

/-- A value of a kind that has no integer, or one without bounds. -/
inductive HasNoInteger : Json → IntegerError → Prop where
  | null : HasNoInteger .null (.kind "NoneType")
  | array (items : List Json) : HasNoInteger (.array items) (.kind "list")
  | object (fields : List (Text × Json)) : HasNoInteger (.object fields) (.kind "dict")
  | infinite (negative : Bool) : HasNoInteger (.float (.infinite negative)) .infinite

theorem HasNoInteger.toInt_eq_error (h : j.HasNoInteger e) : j.toInt = .error e := by
  cases h <;> rfl

/-- Values of the other kinds have no integer where they are no numeral or not a number. -/
inductive IntegerError.IsOfValue : IntegerError → Prop where
  | text (cause : Integer.ReadError) : IsOfValue (.text cause)
  | notANumber : IsOfValue .notANumber

theorem HasNoInteger.not_isOfValue (h : j.HasNoInteger e) : ¬ e.IsOfValue := by
  intro ofValue
  cases h <;> cases ofValue

theorem of_toInt_eq_error (h : j.toInt = .error e) : j.HasNoInteger e ∨ e.IsOfValue := by
  cases j with
  | null =>
    cases h
    exact .inl .null
  | bool b => cases h
  | int n => cases h
  | float x =>
    cases x with
    | nan =>
      cases h
      exact .inr .notANumber
    | infinite negative =>
      cases h
      exact .inl (.infinite negative)
    | finite negative mantissa exponent => cases h
  | string s =>
    obtain ⟨cause, _, rfl⟩ := mapError_eq_error.mp h
    exact .inr (.text cause)
  | array items =>
    cases h
    exact .inl (.array items)
  | object fields =>
    cases h
    exact .inl (.object fields)

end Json

/-! ## Blanks at the ends -/

namespace Text

variable {drop : CodePoint → Bool} {t : Text}

theorem trim_eq (drop : CodePoint → Bool) (t : Text) :
    t.trim drop = (t.dropWhile drop).rdropWhile drop := rfl

/-- What is trimmed has nothing more to trim. -/
theorem trim_trim (drop : CodePoint → Bool) (t : Text) : (t.trim drop).trim drop = t.trim drop := by
  have start : (t.trim drop).dropWhile drop = t.trim drop := by
    rw [List.dropWhile_eq_self_iff]
    intro positive
    have front : t.trim drop <+: t.dropWhile drop := List.rdropWhile_prefix drop _
    rw [List.IsPrefix.getElem front positive]
    exact List.dropWhile_get_zero_not drop t (Nat.lt_of_lt_of_le positive front.length_le)
  rw [trim_eq drop (t.trim drop), start, trim_eq, List.rdropWhile_idempotent]

theorem mem_of_mem_strip {c : CodePoint} (h : c ∈ t.strip) : c ∈ t :=
  (List.dropWhile_sublist _).subset ((List.rdropWhile_prefix _ _).subset h)

theorem strip_strip (t : Text) : t.strip.strip = t.strip := trim_trim _ t

end Text

namespace Settings

/-! ## Fields -/

section Fields

variable {α : Type} [FieldValue α] {fields : Table Text α} {s : Settings}

/-- Settings are given by fields that each give theirs. -/
theorem ofFields_eq_ok_iff :
    ofFields fields = .ok s ↔
      textField fields "addr" defaultAddress = .ok s.address ∧
      textField fields "ndf_path" defaultNetworkPath = .ok s.networkPath ∧
      optionalField fields "log_dir" = .ok s.logDirectory ∧
      textField fields "run_id" defaultRunId = .ok s.runId ∧
      intField fields "partition_ttl_ms" defaultPartTtlMs = .ok s.partTtlMs ∧
      intField fields "max_body_bytes" defaultMaxBodyBytes = .ok s.maxBodyBytes := by
  unfold ofFields
  constructor
  · intro h
    obtain ⟨address, hAddress, h⟩ := bind_eq_ok.mp h
    obtain ⟨networkPath, hNetwork, h⟩ := bind_eq_ok.mp h
    obtain ⟨logDirectory, hLog, h⟩ := bind_eq_ok.mp h
    obtain ⟨runId, hRun, h⟩ := bind_eq_ok.mp h
    obtain ⟨partTtlMs, hTtl, h⟩ := bind_eq_ok.mp h
    obtain ⟨maxBodyBytes, hBody, h⟩ := bind_eq_ok.mp h
    cases h
    exact ⟨hAddress, hNetwork, hLog, hRun, hTtl, hBody⟩
  · rintro ⟨hAddress, hNetwork, hLog, hRun, hTtl, hBody⟩
    rw [hAddress, hNetwork, hLog, hRun, hTtl, hBody]
    rfl

end Fields

/-- The directory for logs, where there is one, is not empty and has no blanks at its ends. -/
def IsTidy (s : Settings) : Prop := ∀ t ∈ s.logDirectory, t ≠ [] ∧ t.strip = t

theorem isTidy_of_ofFields {α : Type} [FieldValue α] {fields : Table Text α} {s : Settings}
    (h : ofFields fields = .ok s) : s.IsTidy := by
  obtain ⟨_, _, log, _⟩ := ofFields_eq_ok_iff.mp h
  intro t given
  rw [Option.mem_def.mp given, optionalField] at log
  split at log
  · cases log
  · split at log
    · cases log
    · obtain ⟨text, _, stripped⟩ := map_eq_ok.mp log
      split at stripped
      · cases stripped
      next nonempty =>
        cases stripped
        exact ⟨fun empty => nonempty (List.isEmpty_iff.mpr empty), Text.strip_strip text⟩

variable {fields : Table Text Json} {s : Settings} {e : SettingError}

theorem valueText_eq_if (j : Json) :
    valueText j = if j.isWritable then .ok j.display else .error (.text .tooLong) := by
  show (if j.isWritable then Except.ok j.display
    else .error Integer.WriteError.tooLong).mapError _ = _
  split <;> rfl

theorem valueText_of_isWritable {j : Json} (h : j.isWritable = true) :
    valueText j = .ok j.display := by
  rw [valueText_eq_if, if_pos h]

theorem exists_textField (writable : ∀ field ∈ fields, field.2.isWritable = true)
    (key default : Text) : ∃ t, textField fields key default = .ok t := by
  unfold textField
  cases found : fields.get? key with
  | none => exact ⟨_, rfl⟩
  | some value => exact ⟨_, valueText_of_isWritable (writable _ (Table.mem_of_get? found))⟩

theorem exists_optionalField (writable : ∀ field ∈ fields, field.2.isWritable = true) (key : Text) :
    ∃ t, optionalField fields key = .ok t := by
  unfold optionalField
  cases found : fields.get? key with
  | none => exact ⟨_, rfl⟩
  | some value =>
    dsimp only
    split
    · exact ⟨_, rfl⟩
    · rw [valueText_of_isWritable (writable _ (Table.mem_of_get? found))]
      exact ⟨_, rfl⟩

/-- Settings are given by their own fields. -/
theorem ofFields_toFields (tidy : s.IsTidy) : ofFields s.toFields = .ok s := by
  have log : optionalField s.toFields "log_dir" = .ok s.logDirectory := by
    cases given : s.logDirectory with
    | none =>
      have found : s.toFields.get? "log_dir" = some .null := by
        rw [toFields, given]
        rfl
      rw [optionalField, found]
      rfl
    | some t =>
      have found : s.toFields.get? "log_dir" = some (.string t) := by
        rw [toFields, given]
        rfl
      obtain ⟨nonempty, stripped⟩ := tidy t given
      rw [optionalField, found]
      show Except.ok (if t.strip.isEmpty then none else some t.strip) = Except.ok (some t)
      rw [stripped, if_neg fun empty => nonempty (List.isEmpty_iff.mp empty)]
  exact ofFields_eq_ok_iff.mpr ⟨rfl, rfl, log, rfl, rfl, rfl⟩

/-- What stands in the way of the settings: a number field whose value has no integer, the second
one only where the first has its integer. -/
inductive Stops (fields : Table Text Json) : Json.IntegerError → Prop where
  | partTtl {value : Json} {cause : Json.IntegerError}
      (found : fields.get? "partition_ttl_ms" = some value) (h : value.HasNoInteger cause) :
      Stops fields cause
  | maxBody {ttl : Int} {value : Json} {cause : Json.IntegerError}
      (before : intField fields "partition_ttl_ms" defaultPartTtlMs = .ok ttl)
      (found : fields.get? "max_body_bytes" = some value) (h : value.HasNoInteger cause) :
      Stops fields cause

theorem Stops.exists_value {cause : Json.IntegerError} (h : Stops fields cause) :
    ∃ value : Json, value.HasNoInteger cause := by
  cases h with
  | partTtl found h => exact ⟨_, h⟩
  | maxBody before found h => exact ⟨_, h⟩

theorem Stops.not_isOfValue {cause : Json.IntegerError} (h : Stops fields cause) :
    ¬ cause.IsOfValue := by
  obtain ⟨value, without⟩ := h.exists_value
  exact without.not_isOfValue

theorem intField_of_get? {key : Text} {value : Json} (default : Int)
    (found : fields.get? key = some value) :
    intField fields key default = value.toInt.mapError .integer := by
  rw [intField, found]
  rfl

theorem of_intField_eq_error {key : Text} {default : Int}
    (h : intField fields key default = .error e) :
    ∃ value cause, fields.get? key = some value ∧ value.toInt = .error cause ∧
      e = .integer cause := by
  cases found : fields.get? key with
  | none =>
    rw [intField, found] at h
    cases h
  | some value =>
    rw [intField_of_get? default found] at h
    obtain ⟨cause, failed, rfl⟩ := mapError_eq_error.mp h
    exact ⟨value, cause, rfl, failed, rfl⟩

/-- With texts for its texts an object is left to its two numbers. -/
theorem ofFields_eq_error_iff (writable : ∀ field ∈ fields, field.2.isWritable = true) :
    ofFields fields = .error e ↔
      intField fields "partition_ttl_ms" defaultPartTtlMs = .error e ∨
      ∃ ttl, intField fields "partition_ttl_ms" defaultPartTtlMs = .ok ttl ∧
        intField fields "max_body_bytes" defaultMaxBodyBytes = .error e := by
  obtain ⟨address, hAddress⟩ := exists_textField writable "addr" defaultAddress
  obtain ⟨networkPath, hNetwork⟩ := exists_textField writable "ndf_path" defaultNetworkPath
  obtain ⟨logDirectory, hLog⟩ := exists_optionalField writable "log_dir"
  obtain ⟨runId, hRun⟩ := exists_textField writable "run_id" defaultRunId
  -- The four texts are there, so that nothing before the two numbers fails.
  unfold ofFields
  rw [hAddress, hNetwork, hLog, hRun]
  show (intField fields _ _ >>= fun ttl => intField fields _ _ >>= fun body => Except.ok _) = _ ↔ _
  rw [bind_eq_error]
  simp only [bind_eq_error, reduceCtorEq, and_false, exists_false, or_false]

/-- The fault of an object is one of its numbers: a value without an integer, or one that is no
numeral or not a number. -/
theorem of_ofFields_eq_error (writable : ∀ field ∈ fields, field.2.isWritable = true)
    (h : ofFields fields = .error e) :
    ∃ cause, e = .integer cause ∧ (Stops fields cause ∨ cause.IsOfValue) := by
  rcases (ofFields_eq_error_iff writable).mp h with h | ⟨ttl, before, h⟩
  · obtain ⟨value, cause, found, failed, rfl⟩ := of_intField_eq_error h
    exact ⟨cause, rfl, (Json.of_toInt_eq_error failed).imp_left (.partTtl found)⟩
  · obtain ⟨value, cause, found, failed, rfl⟩ := of_intField_eq_error h
    exact ⟨cause, rfl, (Json.of_toInt_eq_error failed).imp_left (.maxBody before found)⟩

theorem Stops.ofFields_eq_error (writable : ∀ field ∈ fields, field.2.isWritable = true)
    {cause : Json.IntegerError} (h : Stops fields cause) :
    ofFields fields = .error (.integer cause) := by
  rw [ofFields_eq_error_iff writable]
  cases h with
  | partTtl found h =>
    left
    rw [intField_of_get? _ found, h.toInt_eq_error]
    rfl
  | maxBody before found h =>
    right
    refine ⟨_, before, ?_⟩
    rw [intField_of_get? _ found, h.toInt_eq_error]
    rfl

end Settings

end PartRelay
