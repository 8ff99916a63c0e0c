import PartRelay.Command.Serve
import PartRelay.Proofs.Bytes.Memory
import PartRelay.Proofs.Config.Fields
import PartRelay.Proofs.Json.ReadBack
import PartRelay.Proofs.Text.Utf8

/-!
# Settings from files

What comes of a JSON file: settings that a server can run with, a fault of the file, a fault of one
of its values, or a number field whose value has no integer at all. The server reports the faults
and stops with a code; the last is no fault that is reported, and breaks it off.
-/

namespace PartRelay.Settings

variable {d : Directory} {yaml : Bool} {path : Path} {fields : Table Text Json} {e : LoadError}

/-! ## Faults -/

/-- The file itself gives no fields. -/
inductive LoadError.IsOfFile : LoadError → Prop where
  | notFound (path : Path) : IsOfFile (.notFound path)
  | unreadable (path : Path) (cause : Directory.Error) : IsOfFile (.unreadable path cause)
  | badJson (path : Path) (reason : Text) : IsOfFile (.badJson path reason)
  | badYaml (path : Path) : IsOfFile (.badYaml path)
  | noYaml : IsOfFile .noYaml
  | notAMapping (path : Path) : IsOfFile (.notAMapping path)

/-- A value is not one for its field. -/
inductive LoadError.IsOfValue : LoadError → Prop where
  | text (cause : Integer.WriteError) : IsOfValue (.field (.text cause))
  | integer {cause : Json.IntegerError} (h : cause.IsOfValue) : IsOfValue (.field (.integer cause))
  | invalid (cause : Fault) : IsOfValue (.invalid cause)

/-- Valid settings, or a fault that is meant to be reported. -/
inductive IsDisciplined : Except LoadError Settings → Prop where
  | valid {s : Settings} (h : s.validate = .ok ()) : IsDisciplined (.ok s)
  | file {e : LoadError} (h : e.IsOfFile) : IsDisciplined (.error e)
  | value {e : LoadError} (h : e.IsOfValue) : IsDisciplined (.error e)

theorem not_isDisciplined {cause : Json.IntegerError} (h : ¬ cause.IsOfValue) :
    ¬ IsDisciplined (.error (.field (.integer cause))) := by
  intro disciplined
  cases disciplined with
  | file ofFile => cases ofFile
  | value ofValue =>
    cases ofValue with
    | integer ofValue => exact h ofValue

/-! ## The text of a file -/

theorem lineFeedsFrom_of_not_mem {t : Text} (h : CodePoint.ofChar '\r' ∉ t) (done : Text) :
    Text.lineFeedsFrom t false done = done.reverse ++ t := by
  induction t generalizing done with
  | nil => rw [Text.lineFeedsFrom, List.append_nil]
  | cons c t ih =>
    rw [List.mem_cons, not_or] at h
    obtain ⟨other, rest⟩ := h
    rw [Text.lineFeedsFrom, if_neg (Ne.symm other), Bool.and_false, if_neg (by decide), ih rest,
      List.reverse_cons, List.append_assoc, List.singleton_append]

/-- Printable lines are read from a file as they were written. -/
theorem readText_write {t : Text} (h : t.IsPrintableLines) : readText (Utf8.write t) = .ok t := by
  rw [readText, Utf8.read_write_of_isAscii h.isAscii]
  exact congrArg Except.ok (lineFeedsFrom_of_not_mem h.return_not_mem [])

/-! ## Fields of a file -/

/-- The file at a path is the JSON of an object with these fields. -/
def HoldsFields (d : Directory) (path : Path) (fields : Table Text Json) : Prop :=
  ∃ bs t, d.read path = .ok bs ∧ readText bs = .ok t ∧ Json.read t = .ok (.object fields)

theorem HoldsFields.isWritable (h : HoldsFields d path fields) :
    ∀ field ∈ fields, field.2.isWritable = true := by
  obtain ⟨_, _, _, _, parsed⟩ := h
  exact Json.fieldsWritable_iff.mp (Json.isMeasured_of_read parsed).isWritable

/-- A file into which an object was written holds its fields. -/
theorem holdsFields_of_render (plain : (Json.object fields).IsPlain)
    (writable : (Json.object fields).isWritable = true)
    (h : d.read path = .ok (Utf8.write (Json.object fields).render)) :
    HoldsFields d path fields := by
  have printable := Json.isPrintableAscii_render (Json.object fields) plain.isReadable
  exact ⟨_, _, h, readText_write printable.isPrintableLines, Json.read_render plain writable⟩

theorem ne_yaml (json : formatOf path = .json) : formatOf path ≠ .yaml := by
  rw [json]
  decide

theorem load_of_read_eq_error (there : d.exists? path = .ok true) (json : formatOf path = .json)
    {cause : Directory.Error} (h : d.read path = .error cause) :
    load d yaml path = .error (.unreadable path cause) := by
  rw [load, there]
  dsimp only
  rw [if_neg fun both => ne_yaml json both.1, h]

theorem load_of_read (there : d.exists? path = .ok true) (json : formatOf path = .json) {bs : Bytes}
    (h : d.read path = .ok bs) : load d yaml path = ofJson path bs := by
  rw [load, there]
  dsimp only
  rw [if_neg fun both => ne_yaml json both.1, h]
  dsimp only
  rw [if_neg (ne_yaml json)]

theorem HoldsFields.load_eq (h : HoldsFields d path fields) (there : d.exists? path = .ok true)
    (json : formatOf path = .json) : load d yaml path = ofValidFields fields := by
  obtain ⟨bs, t, read, text, parsed⟩ := h
  rw [load_of_read there json read, ofJson, text]
  dsimp only
  rw [parsed]

/-- A file holds an object, or the fault is of the file. -/
theorem holdsFields_or_isOfFile (there : d.exists? path = .ok true)
    (json : formatOf path = .json) :
    (∃ fields, HoldsFields d path fields) ∨ ∃ e, load d yaml path = .error e ∧ e.IsOfFile := by
  cases read : d.read path with
  | error cause =>
    exact .inr ⟨_, load_of_read_eq_error there json read, .unreadable path cause⟩
  | ok bs =>
    rw [load_of_read there json read, ofJson]
    cases text : readText bs with
    | error e => exact .inr ⟨_, rfl, .badJson path _⟩
    | ok t =>
      dsimp only
      cases parsed : Json.read t with
      | error e => exact .inr ⟨_, rfl, .badJson path _⟩
      | ok j =>
        cases j with
        | object fields => exact .inl ⟨fields, bs, t, read, text, parsed⟩
        | _ => exact .inr ⟨_, rfl, .notAMapping path⟩

/-! ## Settings of fields -/

theorem ofValidFields_of_stops (writable : ∀ field ∈ fields, field.2.isWritable = true)
    {cause : Json.IntegerError} (h : Stops fields cause) :
    ofValidFields fields = .error (.field (.integer cause)) := by
  rw [ofValidFields, h.ofFields_eq_error writable]
  rfl

/-- Where nothing stops them, fields give valid settings or have a fault in a value. -/
theorem isDisciplined_ofValidFields (writable : ∀ field ∈ fields, field.2.isWritable = true)
    (free : ∀ cause, ¬ Stops fields cause) : IsDisciplined (ofValidFields fields) := by
  unfold ofValidFields
  cases made : ofFields fields with
  | error e =>
    obtain ⟨cause, rfl, stops | ofValue⟩ := of_ofFields_eq_error writable made
    · exact absurd stops (free cause)
    · exact .value (.integer ofValue)
  | ok s =>
    show IsDisciplined (s.validate.mapError .invalid >>= fun _ => Except.ok s)
    cases valid : s.validate with
    | error e => exact .value (.invalid e)
    | ok u => exact .valid valid

/-! ## Serving -/

/-- What is wrong with the settings that are named is how the server ends. -/
theorem runServe_of_load_eq_error {a : ServeArguments} {p : Text}
    (named : a.config = some p) (given : p ≠ []) (h : load d true (.ofText p) = .error e)
    (machine : Command.Machine) :
    Command.runServe machine d a = .halted d Command.noSize (.ofLoad e) := by
  have settings : Command.namedSettings d (some p) = .error (.ofLoad e) := by
    cases p with
    | nil => exact absurd rfl given
    | cons c p =>
      rw [Command.namedSettings, h]
      · rfl
      · exact nofun
  rw [Command.runServe, Command.prepare, Command.chosenSettings, named, settings]
  rfl

theorem ofLoad_of_isDisciplined (h : IsDisciplined (.error e)) :
    Command.Halt.ofLoad e = .reported e.message := by
  cases h with
  | file h => cases h <;> rfl
  | value h =>
    cases h with
    | integer h => cases h <;> rfl
    | _ => rfl

theorem Stops.ofLoad_eq {cause : Json.IntegerError} (h : Stops fields cause) :
    Command.Halt.ofLoad (.field (.integer cause)) = .broken (.setting cause) := by
  obtain ⟨value, without⟩ := h.exists_value
  cases without <;> rfl

/-- A JSON file that is there gives valid settings or a fault that the server reports with the code
one, except where one of the two numbers is null, a list, an object or infinite: then there are no
settings, and the server breaks off. -/
theorem load_decides (there : d.exists? path = .ok true) (json : formatOf path = .json) :
    (∀ yaml, IsDisciplined (load d yaml path) ↔
      ¬ ∃ fields cause, HoldsFields d path fields ∧ Stops fields cause) ∧
    (∀ yaml fields cause, HoldsFields d path fields → Stops fields cause →
      load d yaml path = .error (.field (.integer cause))) ∧
    ∀ (machine : Command.Machine) (a : ServeArguments) (p : Text),
      a.config = some p → p ≠ [] → .ofText p = path →
      (∀ e, load d true path = .error e → IsDisciplined (.error e) →
        Command.runServe machine d a = .failed d (Command.noSize e.message)) ∧
      ∀ fields cause, HoldsFields d path fields → Stops fields cause →
        Command.runServe machine d a = .broken d (.setting cause) := by
  have stopped {yaml : Bool} {fields : Table Text Json} {cause : Json.IntegerError}
      (held : HoldsFields d path fields) (stops : Stops fields cause) :
      load d yaml path = .error (.field (.integer cause)) := by
    rw [held.load_eq there json, ofValidFields_of_stops held.isWritable stops]
  refine ⟨fun yaml => ⟨?_, fun free => ?_⟩, fun _ _ _ => stopped, ?_⟩
  · rintro disciplined ⟨fields, cause, held, stops⟩
    rw [stopped held stops] at disciplined
    exact not_isDisciplined stops.not_isOfValue disciplined
  · rcases @holdsFields_or_isOfFile d yaml path there json with ⟨fields, held⟩ | ⟨e, failed, ofFile⟩
    · rw [held.load_eq there json]
      exact isDisciplined_ofValidFields held.isWritable
        fun cause stops => free ⟨fields, cause, held, stops⟩
    · rw [failed]
      exact .file ofFile
  · rintro machine a p named given rfl
    refine ⟨fun e failed disciplined => ?_, fun fields cause held stops => ?_⟩
    · rw [runServe_of_load_eq_error named given failed, ofLoad_of_isDisciplined disciplined]
      rfl
    · rw [runServe_of_load_eq_error named given (stopped held stops), stops.ofLoad_eq]
      rfl

/-! ## One field -/

/-- A directory with one file, in which there is one field. -/
def withField (key : Text) (value : Json) : Directory :=
  [({ names := [Path.nameBytes "server.json"] },
    .file (Utf8.write (Json.object [(key, value)]).render))]

/-- The arguments that only name a file. -/
def serving (config : Text) : ServeArguments where
  config := some config
  address := none
  networkPath := none
  logDirectory := none

/-- With a list for the greatest body the server breaks off. -/
theorem load_decides_list :
    Command.runServe ⟨0, 0, .gigabyte, ⟨10, by decide⟩⟩ (withField "max_body_bytes" (.array []))
      (serving "server.json") =
      .broken (withField "max_body_bytes" (.array [])) (.setting (.kind "list")) := by
  have there : (withField "max_body_bytes" (.array [])).exists? (.ofText "server.json") =
      .ok true := rfl
  have json : formatOf (.ofText "server.json") = .json := by decide +kernel
  have held : HoldsFields (withField "max_body_bytes" (.array [])) (.ofText "server.json")
      [("max_body_bytes", .array [])] :=
    holdsFields_of_render ⟨by decide, by simp [Text.IsScalar]; decide, trivial, trivial⟩ rfl rfl
  have stops : Stops [("max_body_bytes", .array [])] (.kind "list") := .maxBody rfl rfl (.array [])
  obtain ⟨_, _, served⟩ := load_decides there json
  exact (served _ (serving "server.json") "server.json" rfl (by decide) rfl).2 _ _ held stops

/-- A file with null for the time that parts are kept is no valid settings and no fault that is
reported. -/
theorem not_isDisciplined_null :
    (withField "partition_ttl_ms" .null).exists? (.ofText "server.json") = .ok true ∧
      formatOf (.ofText "server.json") = .json ∧
      ¬ IsDisciplined (load (withField "partition_ttl_ms" .null) true (.ofText "server.json")) := by
  have there : (withField "partition_ttl_ms" .null).exists? (.ofText "server.json") =
      .ok true := rfl
  have json : formatOf (.ofText "server.json") = .json := by decide +kernel
  have held : HoldsFields (withField "partition_ttl_ms" .null) (.ofText "server.json")
      [("partition_ttl_ms", .null)] :=
    holdsFields_of_render ⟨by decide, by simp [Text.IsScalar]; decide, trivial, trivial⟩ rfl rfl
  refine ⟨there, json, ?_⟩
  rw [held.load_eq there json, ofValidFields_of_stops held.isWritable (.partTtl rfl .null)]
  exact not_isDisciplined nofun

end PartRelay.Settings
