import PartRelay.Proofs.Config.Fields

/-!
# Overridden settings

Settings are read from fields and overridden afterwards. To lay the same values over the fields
first comes to the same, whatever the values of the fields are: what a value was read as is read
once more as itself. Main statement: `override_eq_ofFields`.
-/

namespace PartRelay

namespace Settings

/-! ## Readings -/

section Readings

variable {α γ ε : Type} {t t' o : Table Text α} {key : Text} {f : Table Text α → γ}

/-- What is made of a table is made of its value for a key, or of there being none. -/
def Reads (f : Table Text α → γ) (key : Text) : Prop :=
  ∃ (absent : γ) (present : α → γ), ∀ t, f t = (t.get? key).elim absent present

/-- What is read comes from the table, or from one of the fields that are laid over it. -/
theorem Reads.update (h : Reads f key) (t o : Table Text α) :
    f (t.update o) = f t ∨ ∃ field ∈ o, f (t.update o) = f [field] := by
  obtain ⟨absent, present, reads⟩ := h
  cases found : Table.get? o.reverse key with
  | none =>
    left
    rw [reads, reads, Table.get?_update, found, Option.none_or]
  | some value =>
    right
    refine ⟨(key, value), List.mem_reverse.mp (Table.mem_of_get? found), ?_⟩
    rw [reads, reads, Table.get?_update, found, Table.get?, if_pos rfl, Option.some_or]

theorem Reads.update_congr (h : Reads f key) (same : f t = f t') :
    f (t.update o) = f (t'.update o) := by
  obtain ⟨absent, present, reads⟩ := h
  rw [reads, reads] at same
  rw [reads, reads, Table.get?_update, Table.get?_update]
  cases Table.get? o.reverse key with
  | none => simpa using same
  | some value => simp

theorem Reads.exists_update {f : Table Text α → Except ε γ} (h : Reads f key)
    (old : ∃ x, f t = .ok x) (each : ∀ field ∈ o, ∃ x, f [field] = .ok x) :
    ∃ x, f (t.update o) = .ok x := by
  rcases h.update t o with same | ⟨field, among, same⟩
  · rwa [same]
  · rw [same]
    exact each field among

/-- Where nothing is laid over a field, it is read as before. -/
theorem Reads.eq_of_absent {f : Table Text α → Except ε γ} {x y : γ} (h : Reads f key)
    (free : key ∉ Table.keys o) (old : f t = .ok x) (new : f (t.update o) = .ok y) : y = x := by
  obtain ⟨absent, present, reads⟩ := h
  rw [reads, Table.get?_update_of_absent free, ← reads, old] at new
  exact (Except.ok.inj new).symm

end Readings

/-! ## Fields that are read alike -/

section Fields

variable {α : Type} [FieldValue α] {t t' o : Table Text α} {s s' : Settings}

theorem reads_textField (key default : Text) :
    Reads (fun t : Table Text α => textField t key default) key := by
  refine ⟨.ok default, valueText, fun t => ?_⟩
  show textField t key default = _
  rw [textField]
  cases t.get? key <;> rfl

theorem reads_optionalField (key : Text) :
    Reads (fun t : Table Text α => optionalField t key) key := by
  refine ⟨.ok none, fun value => optionalField [(key, value)] key, fun t => ?_⟩
  show optionalField t key = _
  cases found : t.get? key with
  | none =>
    rw [optionalField, found]
    rfl
  | some value => simp [optionalField, found, Table.get?]

theorem reads_intField (key : Text) (default : Int) :
    Reads (fun t : Table Text α => intField t key default) key := by
  refine ⟨.ok default, fun value => (FieldValue.integer value).mapError .integer, fun t => ?_⟩
  show intField t key default = _
  rw [intField]
  cases t.get? key <;> rfl

/-- Two tables with the same setting, or the same fault, at each of the six keys. -/
structure ReadAlike (t t' : Table Text α) : Prop where
  address : textField t "addr" defaultAddress = textField t' "addr" defaultAddress
  networkPath :
    textField t "ndf_path" defaultNetworkPath = textField t' "ndf_path" defaultNetworkPath
  logDirectory : optionalField t "log_dir" = optionalField t' "log_dir"
  runId : textField t "run_id" defaultRunId = textField t' "run_id" defaultRunId
  partTtlMs : intField t "partition_ttl_ms" defaultPartTtlMs =
    intField t' "partition_ttl_ms" defaultPartTtlMs
  maxBodyBytes : intField t "max_body_bytes" defaultMaxBodyBytes =
    intField t' "max_body_bytes" defaultMaxBodyBytes

theorem ReadAlike.ofFields_eq (h : ReadAlike t t') : ofFields t = ofFields t' := by
  unfold ofFields
  rw [h.address, h.networkPath, h.logDirectory, h.runId, h.partTtlMs, h.maxBodyBytes]

theorem ReadAlike.of_ofFields (h : ofFields t = .ok s) (h' : ofFields t' = .ok s) :
    ReadAlike t t' := by
  obtain ⟨address, network, log, run, ttl, body⟩ := ofFields_eq_ok_iff.mp h
  obtain ⟨address', network', log', run', ttl', body'⟩ := ofFields_eq_ok_iff.mp h'
  exact ⟨address.trans address'.symm, network.trans network'.symm, log.trans log'.symm,
    run.trans run'.symm, ttl.trans ttl'.symm, body.trans body'.symm⟩

theorem ReadAlike.of_get? (h : ∀ key, t.get? key = t'.get? key) : ReadAlike t t' := by
  constructor <;> simp only [textField, optionalField, intField, h]

theorem ReadAlike.update (h : ReadAlike t t') (o : Table Text α) :
    ReadAlike (t.update o) (t'.update o) where
  address := (reads_textField _ _).update_congr h.address
  networkPath := (reads_textField _ _).update_congr h.networkPath
  logDirectory := (reads_optionalField _).update_congr h.logDirectory
  runId := (reads_textField _ _).update_congr h.runId
  partTtlMs := (reads_intField _ _).update_congr h.partTtlMs
  maxBodyBytes := (reads_intField _ _).update_congr h.maxBodyBytes

/-- Fields that give the same settings give the same, or fail the same way, with more laid over. -/
theorem ofFields_update_congr (h : ofFields t = .ok s) (h' : ofFields t' = .ok s)
    (o : Table Text α) : ofFields (t.update o) = ofFields (t'.update o) :=
  ((ReadAlike.of_ofFields h h').update o).ofFields_eq

/-- Fields that each give settings alone give settings when they are laid over others that do. -/
theorem exists_ofFields_update (h : ofFields t = .ok s)
    (each : ∀ field ∈ o, ∃ s', ofFields [field] = .ok s') :
    ∃ s', ofFields (t.update o) = .ok s' := by
  obtain ⟨address, network, log, run, ttl, body⟩ := ofFields_eq_ok_iff.mp h
  -- Each of the six is read from the table as before, or as from a field alone.
  have alone (field : Text × α) (among : field ∈ o) :=
    (each field among).imp fun _ given => ofFields_eq_ok_iff.mp given
  obtain ⟨_, hAddress⟩ := (reads_textField _ _).exists_update ⟨_, address⟩ fun field among =>
    (alone field among).elim fun _ given => ⟨_, given.1⟩
  obtain ⟨_, hNetwork⟩ := (reads_textField _ _).exists_update ⟨_, network⟩ fun field among =>
    (alone field among).elim fun _ given => ⟨_, given.2.1⟩
  obtain ⟨_, hLog⟩ := (reads_optionalField _).exists_update ⟨_, log⟩ fun field among =>
    (alone field among).elim fun _ given => ⟨_, given.2.2.1⟩
  obtain ⟨_, hRun⟩ := (reads_textField _ _).exists_update ⟨_, run⟩ fun field among =>
    (alone field among).elim fun _ given => ⟨_, given.2.2.2.1⟩
  obtain ⟨_, hTtl⟩ := (reads_intField _ _).exists_update ⟨_, ttl⟩ fun field among =>
    (alone field among).elim fun _ given => ⟨_, given.2.2.2.2.1⟩
  obtain ⟨_, hBody⟩ := (reads_intField _ _).exists_update ⟨_, body⟩ fun field among =>
    (alone field among).elim fun _ given => ⟨_, given.2.2.2.2.2⟩
  exact ⟨⟨_, _, _, _, _, _⟩, ofFields_eq_ok_iff.mpr ⟨hAddress, hNetwork, hLog, hRun, hTtl, hBody⟩⟩

end Fields

/-! ## Fields of any kind -/

section Seen

variable {α β : Type} [FieldValue α] [FieldValue β] {s : Settings}

/-- What settings see of a value. -/
structure Seen where
  isNull : Bool
  text : Except Integer.WriteError Text
  integer : Except Json.IntegerError Int

instance : FieldValue Seen where
  isNull := Seen.isNull
  text := Seen.text
  integer := Seen.integer

def seen (value : α) : Seen where
  isNull := FieldValue.isNull value
  text := FieldValue.text value
  integer := FieldValue.integer value

/-- Settings see no more of a value than that. -/
theorem ofFields_seen (fields : Table Text α) :
    ofFields (fields.mapValues seen) = ofFields fields := by
  have texts (key default : Text) :
      textField (fields.mapValues seen) key default = textField fields key default := by
    rw [textField, textField, Table.get?_mapValues]
    cases fields.get? key <;> rfl
  have optional (key : Text) :
      optionalField (fields.mapValues seen) key = optionalField fields key := by
    rw [optionalField, optionalField, Table.get?_mapValues]
    cases fields.get? key <;> rfl
  have numbers (key : Text) (default : Int) :
      intField (fields.mapValues seen) key default = intField fields key default := by
    rw [intField, intField, Table.get?_mapValues]
    cases fields.get? key <;> rfl
  unfold ofFields
  simp only [texts, optional, numbers]

/-- A value of one kind or of another. -/
instance : FieldValue (α ⊕ β) where
  isNull := Sum.elim FieldValue.isNull FieldValue.isNull
  text := Sum.elim FieldValue.text FieldValue.text
  integer := Sum.elim FieldValue.integer FieldValue.integer

/-- The overrides that are not null. -/
def given (overrides : Table Text Json) : Table Text Json :=
  overrides.filter fun entry => !FieldValue.isNull entry.2

/-- Fields whose values may be of another kind, with the overrides laid over them. -/
def laidOver (fields : Table Text α) (overrides : Table Text Json) : Table Text (α ⊕ Json) :=
  (fields.mapValues .inl).update ((given overrides).mapValues .inr)

theorem laidOver_seen (fields : Table Text α) (overrides : Table Text Json) :
    (laidOver fields overrides).mapValues seen =
      (fields.mapValues seen).update ((given overrides).mapValues seen) := by
  rw [laidOver, Table.mapValues_update]
  simp only [Table.mapValues, List.map_map]
  rfl

theorem ofFields_laidOver {fields : Table Text α} {fields' : Table Text β}
    (h : ofFields fields = .ok s) (h' : ofFields fields' = .ok s) (overrides : Table Text Json) :
    ofFields (laidOver fields overrides) = ofFields (laidOver fields' overrides) := by
  -- The values of both are of one kind once they are what settings see of them.
  rw [← ofFields_seen (laidOver fields overrides), ← ofFields_seen (laidOver fields' overrides),
    laidOver_seen, laidOver_seen]
  rw [← ofFields_seen] at h h'
  exact ofFields_update_congr h h' _

/-- Over fields of JSON the overrides are laid as they are. -/
theorem ofFields_laidOver_json (fields overrides : Table Text Json) :
    ofFields (laidOver fields overrides) = ofFields (fields.update (given overrides)) := by
  rw [← ofFields_seen, laidOver_seen, ← Table.mapValues_update, ofFields_seen]

end Seen

/-! ## Overriding -/

section Overriding

variable {α : Type} [FieldValue α] {fields : Table Text α} {overrides : Table Text Json}
  {s s' : Settings} {key : Text}

theorem override_eq (s : Settings) (overrides : Table Text Json) :
    s.override overrides = ofFields (s.toFields.update (given overrides)) := rfl

/-- A field that is not overridden keeps its value. -/
theorem get?_toFields_override (tidy : s.IsTidy) (h : s.override overrides = .ok s')
    (free : key ∉ (given overrides).keys) : s'.toFields.get? key = s.toFields.get? key := by
  obtain ⟨address, network, log, run, ttl, body⟩ := ofFields_eq_ok_iff.mp (ofFields_toFields tidy)
  rw [override_eq] at h
  obtain ⟨address', network', log', run', ttl', body'⟩ := ofFields_eq_ok_iff.mp h
  rw [toFields, toFields]
  -- The key is that of one field at most, and that field is read as before.
  refine Table.get?_cons_congr (fun here => ?_) (Table.get?_cons_congr (fun here => ?_)
    (Table.get?_cons_congr (fun here => ?_) (Table.get?_cons_congr (fun here => ?_)
      (Table.get?_cons_congr (fun here => ?_) (Table.get?_cons_congr (fun here => ?_) rfl)))))
  · rw [(reads_textField _ _).eq_of_absent (here ▸ free) address address']
  · rw [(reads_textField _ _).eq_of_absent (here ▸ free) network network']
  · rw [(reads_optionalField _).eq_of_absent (here ▸ free) log log']
  · rw [(reads_textField _ _).eq_of_absent (here ▸ free) run run']
  · rw [(reads_intField _ _).eq_of_absent (here ▸ free) ttl ttl']
  · rw [(reads_intField _ _).eq_of_absent (here ▸ free) body body']

/-- The same overrides change nothing the second time. -/
theorem override_override (h : s.override overrides = .ok s') :
    s'.override overrides = .ok s' := by
  have own : ofFields s'.toFields = .ok s' := ofFields_toFields (isTidy_of_ofFields h)
  -- The fields of `s'` give what those of `s` give with the overrides, which are then laid over
  -- themselves.
  rw [override_eq, ofFields_update_congr own h, ← h, override_eq]
  exact (ReadAlike.of_get? (Table.get?_update_update _ _)).ofFields_eq

/-- An override is accepted that is null or gives settings by itself. -/
def IsAccepted (entry : Text × Json) : Prop :=
  FieldValue.isNull entry.2 = true ∨ ∃ s, ofFields [entry] = .ok s

/-- Accepted values override any settings that were read. -/
theorem exists_override (tidy : s.IsTidy) (accepted : ∀ entry ∈ overrides, IsAccepted entry) :
    ∃ s', s.override overrides = .ok s' := by
  rw [override_eq]
  apply exists_ofFields_update (ofFields_toFields tidy)
  intro field among
  obtain ⟨listed, notNull⟩ := List.mem_filter.mp among
  rcases accepted field listed with null | alone
  · rw [null] at notNull
    cases notNull
  · exact alone

/-- Overriding settings that were read from fields comes to reading them from the fields with the
overrides laid over these, also where that fails. Overrides that are accepted one by one are
accepted together. The settings that come about are those of their own fields, every field that is
not overridden is as it was, and the same overrides change nothing more. -/
theorem override_eq_ofFields (made : ofFields fields = .ok s) (overrides : Table Text Json) :
    s.override overrides = ofFields (laidOver fields overrides) ∧
    (∀ json : Table Text Json, ofFields json = .ok s →
      s.override overrides = ofFields (json.update (given overrides))) ∧
    ofFields s.toFields = .ok s ∧
    ((∀ entry ∈ overrides, IsAccepted entry) → ∃ s', s.override overrides = .ok s') ∧
    ∀ s', s.override overrides = .ok s' →
      ofFields s'.toFields = .ok s' ∧
      (∀ key ∉ (given overrides).keys, s'.toFields.get? key = s.toFields.get? key) ∧
      s'.override overrides = .ok s' := by
  have tidy := isTidy_of_ofFields made
  have own := ofFields_toFields tidy
  refine ⟨?_, fun json read => ?_, own, exists_override tidy, fun s' overridden => ?_⟩
  · rw [override_eq, ← ofFields_laidOver_json]
    exact ofFields_laidOver own made overrides
  · exact ofFields_update_congr own read (given overrides)
  · refine ⟨ofFields_toFields (isTidy_of_ofFields overridden), fun key free => ?_,
      override_override overridden⟩
    exact get?_toFields_override tidy overridden free

end Overriding

/-- Fields whose values are not what the settings are: a truth value for a text, a text with blanks
around it, a numeral, and a fraction. -/
def looseFields : Table Text Json :=
  [("addr", .bool true), ("log_dir", .string " logs "), ("partition_ttl_ms", .string " 1_0 "),
   ("max_body_bytes", .float (.finite false 5 (-1)))]

def looseSettings : Settings where
  address := "True"
  logDirectory := some "logs"
  partTtlMs := 10
  maxBodyBytes := 2

/-- A value that is null, one that is nothing but blanks, and a truth value for a number. -/
def looseOverrides : Table Text Json :=
  [("run_id", .null), ("log_dir", .string "  "), ("max_body_bytes", .bool true)]

theorem override_eq_ofFields_loose :
    ofFields looseFields = .ok looseSettings ∧
    (∀ entry ∈ looseOverrides, IsAccepted entry) ∧
    ∃ s', looseSettings.override looseOverrides = .ok s' ∧
      ofFields (looseFields.update (given looseOverrides)) = .ok s' ∧
      s'.override looseOverrides = .ok s' ∧
      s'.toFields.get? "partition_ttl_ms" = some (.int 10) := by
  have made : ofFields looseFields = .ok looseSettings := rfl
  have accepted : ∀ entry ∈ looseOverrides, IsAccepted entry := by
    rw [looseOverrides]
    simp only [List.forall_mem_cons]
    exact ⟨.inl rfl, .inr ⟨_, rfl⟩, .inr ⟨_, rfl⟩, List.forall_mem_nil _⟩
  obtain ⟨_, same, _, exist, after⟩ := override_eq_ofFields made looseOverrides
  obtain ⟨s', overridden⟩ := exist accepted
  obtain ⟨_, kept, again⟩ := after s' overridden
  have free : Text.ofString "partition_ttl_ms" ∉ (given looseOverrides).keys := by decide
  exact ⟨made, accepted, s', overridden, same _ made ▸ overridden, again, kept _ free⟩

end Settings

end PartRelay
