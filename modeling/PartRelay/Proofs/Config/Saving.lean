import PartRelay.Proofs.Config.Loading
import PartRelay.Proofs.Files.Directory
import PartRelay.Proofs.Json.Lines

/-!
# Saved settings

Settings that are made of characters and of numbers that can be written come back from the file into
which they are saved. A string may hold anything: line ends, quotes and control characters are
escaped in the file, so that reading it as text does not change them.
-/

namespace PartRelay.Settings

variable {d : Directory} {path : Path} {s : Settings}

/-! ## Settings that can be stored -/

/-- A value without parts: characters, a number that can be written, or a word. -/
inductive IsSimple : Json → Prop where
  | null : IsSimple .null
  | bool (b : Bool) : IsSimple (.bool b)
  | int {n : Int} (h : Integer.isWritable n = true) : IsSimple (.int n)
  | string {t : Text} (h : t.IsScalar) : IsSimple (.string t)

theorem IsSimple.isMeasured {j : Json} (h : IsSimple j) : j.IsMeasured := by
  cases h with
  | null => exact .null
  | bool b => exact .bool b
  | int h => exact .int h
  | string h => exact .string _

theorem IsSimple.isScalar_display {j : Json} (h : IsSimple j) : j.display.IsScalar := by
  cases h with
  | null => exact Text.IsAscii.isScalar (by rw [Text.IsAscii]; decide)
  | bool b => cases b <;> exact Text.IsAscii.isScalar (by rw [Text.IsAscii]; decide)
  | int h => exact (Text.isPrintableAscii_ofInt _).isAscii.isScalar
  | string h => exact h

theorem IsSimple.isPlain {j : Json} (h : IsSimple j) : j.IsPlain := by
  cases h with
  | string h => exact h
  | _ => exact trivial

/-- The names of the fields that settings are read from. -/
def names : List Text :=
  ["addr", "ndf_path", "log_dir", "run_id", "partition_ttl_ms", "max_body_bytes"]

/-- All values that count are simple. -/
def AreSimple (fields : Table Text Json) : Prop :=
  ∀ field ∈ fields, field.1 ∈ names → IsSimple field.2

/-- Settings whose texts are characters and whose numbers can be written. -/
structure IsStorable (s : Settings) : Prop where
  address : s.address.IsScalar
  networkPath : s.networkPath.IsScalar
  logDirectory : ∀ t ∈ s.logDirectory, t.IsScalar
  runId : s.runId.IsScalar
  partTtlMs : Integer.isWritable s.partTtlMs = true
  maxBodyBytes : Integer.isWritable s.maxBodyBytes = true

section Fields

variable {fields : Table Text Json} {key : Text}

theorem eq_display_of_valueText {j : Json} {t : Text} (h : valueText j = .ok t) :
    t = j.display := by
  rw [valueText_eq_if] at h
  split at h
  · cases h
    rfl
  · cases h

theorem isScalar_of_textField {default t : Text} (simple : AreSimple fields) (named : key ∈ names)
    (scalar : default.IsScalar) (h : textField fields key default = .ok t) : t.IsScalar := by
  cases found : fields.get? key with
  | none =>
    rw [textField, found] at h
    cases h
    exact scalar
  | some value =>
    rw [textField, found] at h
    rw [eq_display_of_valueText h]
    exact (simple _ (Table.mem_of_get? found) named).isScalar_display

theorem isScalar_of_optionalField {given : Option Text} (simple : AreSimple fields)
    (named : key ∈ names) (h : optionalField fields key = .ok given) :
    ∀ t ∈ given, t.IsScalar := by
  intro t among
  rw [Option.mem_def.mp among, optionalField] at h
  split at h
  · cases h
  next value found =>
    split at h
    · cases h
    · obtain ⟨text, display, stripped⟩ := map_eq_ok.mp h
      have scalar := (simple _ (Table.mem_of_get? found) named).isScalar_display
      rw [← eq_display_of_valueText display] at scalar
      split at stripped
      · cases stripped
      · cases stripped
        exact fun c hc => scalar c (Text.mem_of_mem_strip hc)

theorem isWritable_of_intField {default n : Int} (simple : AreSimple fields) (named : key ∈ names)
    (writable : Integer.isWritable default = true) (h : intField fields key default = .ok n) :
    Integer.isWritable n = true := by
  cases found : fields.get? key with
  | none =>
    rw [intField, found] at h
    cases h
    exact writable
  | some value =>
    rw [intField_of_get? default found] at h
    exact (simple _ (Table.mem_of_get? found) named).isMeasured.isWritable_of_toInt
      (mapError_eq_ok.mp h)

theorem isStorable_of_ofFields (simple : AreSimple fields) (h : ofFields fields = .ok s) :
    s.IsStorable := by
  obtain ⟨address, network, log, run, ttl, body⟩ := ofFields_eq_ok_iff.mp h
  have ascii (t : Text) (h : ∀ c ∈ t, c.isAscii = true) : t.IsScalar := Text.IsAscii.isScalar h
  constructor
  · exact isScalar_of_textField simple (by decide) (ascii _ (by decide)) address
  · exact isScalar_of_textField simple (by decide) (ascii _ (by decide)) network
  · exact isScalar_of_optionalField simple (by decide) log
  · exact isScalar_of_textField simple (by decide) (ascii _ (by decide)) run
  · exact isWritable_of_intField simple (by decide)
      (Integer.isWritable_of_lt (by decide) (by decide)) ttl
  · exact isWritable_of_intField simple (by decide)
      (Integer.isWritable_of_lt (by decide) (by decide)) body

end Fields

/-- Settings as they come about: from fields, or from other settings with overrides. -/
inductive IsMade : Settings → Prop where
  | ofFields {fields : Table Text Json} {s : Settings} (simple : AreSimple fields)
      (h : ofFields fields = .ok s) : IsMade s
  | override {before s : Settings} {overrides : Table Text Json}
      (stored : AreSimple before.toFields) (simple : AreSimple overrides)
      (h : before.override overrides = .ok s) : IsMade s

/-- Overridden settings are read from fields as well. -/
theorem IsMade.exists_fields (h : s.IsMade) :
    ∃ fields, AreSimple fields ∧ Settings.ofFields fields = .ok s := by
  cases h with
  | ofFields simple h => exact ⟨_, simple, h⟩
  | override stored simple h =>
    refine ⟨_, fun field member named => ?_, h⟩
    rcases Table.mem_of_mem_update member with old | given
    · exact stored field old named
    · exact simple field (List.mem_of_mem_filter given) named

theorem IsMade.isStorable (h : s.IsMade) : s.IsStorable := by
  obtain ⟨fields, simple, made⟩ := h.exists_fields
  exact isStorable_of_ofFields simple made

theorem IsMade.isTidy (h : s.IsMade) : s.IsTidy := by
  obtain ⟨fields, simple, made⟩ := h.exists_fields
  exact isTidy_of_ofFields made

/-! ## Files -/

theorem IsStorable.isSimple (h : s.IsStorable) :
    ∀ field ∈ s.toFields, field.1 ∈ names ∧ IsSimple field.2 := by
  rw [toFields]
  simp only [List.forall_mem_cons]
  refine ⟨⟨by decide, .string h.address⟩, ⟨by decide, .string h.networkPath⟩, ⟨by decide, ?_⟩,
    ⟨by decide, .string h.runId⟩, ⟨by decide, .int h.partTtlMs⟩, ⟨by decide, .int h.maxBodyBytes⟩,
    List.forall_mem_nil _⟩
  cases given : s.logDirectory with
  | none => exact .null
  | some t => exact .string (h.logDirectory t given)

theorem IsStorable.isPlain_toFields (h : s.IsStorable) : (Json.object s.toFields).IsPlain := by
  have keys : s.toFields.map Prod.fst = names := rfl
  have scalar : ∀ name ∈ names, ∀ c ∈ name, c.isSurrogate = false := by decide
  refine ⟨keys ▸ by decide, Json.fieldsPlain_iff.mpr fun field member => ?_⟩
  obtain ⟨named, simple⟩ := h.isSimple field member
  exact ⟨scalar _ named, simple.isPlain⟩

theorem IsStorable.isWritable_toFields (h : s.IsStorable) :
    (Json.object s.toFields).isWritable = true := by
  rw [Json.isWritable]
  exact Json.fieldsWritable_iff.mpr fun field member =>
    (h.isSimple field member).2.isMeasured.isWritable

/-- Saved settings are the fields of the file. -/
theorem IsStorable.holdsFields (h : s.IsStorable) {written : Directory}
    (saved : d.write path (Utf8.write (s.render .json)) = .ok written) :
    HoldsFields written path s.toFields := by
  have plain := h.isPlain_toFields
  exact ⟨_, _, Directory.read_write saved,
    readText_write (Json.isPrintableLines_renderLines plain.2),
    Json.read_renderLines plain h.isWritable_toFields⟩

/-- Valid settings are given by their own fields. -/
theorem ofValidFields_toFields (tidy : s.IsTidy) (valid : s.validate = .ok ()) :
    ofValidFields s.toFields = .ok s := by
  rw [ofValidFields, ofFields_toFields tidy]
  show s.validate.mapError _ >>= (fun _ => Except.ok s) = _
  rw [valid]
  rfl

theorem save_eq (json : formatOf path = .json) (yaml : Bool) :
    save d yaml path s =
      (d.write path (Utf8.write (s.render .json))).mapError .unwritable := by
  rw [save, if_neg fun both => ne_yaml json both.1, json]

/-- What has been saved is loaded again, whatever stands in the texts. -/
theorem load_saved (made : s.IsMade) (valid : s.validate = .ok ()) (json : formatOf path = .json)
    (writable : ∃ content written, d.write path content = .ok written) (yaml yaml' : Bool) :
    ∃ written, save d yaml path s = .ok written ∧ load written yaml' path = .ok s := by
  obtain ⟨_, _, writable⟩ := writable
  obtain ⟨written, saved⟩ := Directory.exists_write writable (Utf8.write (s.render .json))
  refine ⟨written, ?_, ?_⟩
  · rw [save_eq json, saved, mapError_ok]
  · have held := made.isStorable.holdsFields saved
    rw [held.load_eq (Directory.exists?_write saved) json]
    exact ofValidFields_toFields made.isTidy valid

/-- Quotes, line ends of several kinds, and a character that is escaped as two surrogates. -/
def awkward : Text := "'\"\\\r\n\u2028\x1b 😀"

def awkwardSettings : Settings where
  networkPath := awkward
  logDirectory := some awkward
  maxBodyBytes := 7

theorem load_saved_awkward :
    ∃ written, save ([] : Directory) false (.ofText "server.json") awkwardSettings =
      .ok written ∧ load written true (.ofText "server.json") = .ok awkwardSettings := by
  have scalar : ∀ c ∈ awkward, c.isSurrogate = false := by decide
  have margins : ∀ c ∈ Text.ofString "\r\n " ++ awkward ++ Text.ofString "\t",
      c.isSurrogate = false := by decide
  have simple : AreSimple [("ndf_path", .string awkward),
      ("log_dir", .string (Text.ofString "\r\n " ++ awkward ++ Text.ofString "\t")),
      ("max_body_bytes", .int 7)] := by
    simp only [AreSimple, List.forall_mem_cons]
    exact ⟨fun _ => .string scalar, fun _ => .string margins,
      fun _ => .int (Integer.isWritable_of_lt (by decide) (by decide)), List.forall_mem_nil _⟩
  have made : awkwardSettings.IsMade := .ofFields simple rfl
  exact load_saved made rfl (by decide +kernel) ⟨[], _, rfl⟩ false true

end PartRelay.Settings
