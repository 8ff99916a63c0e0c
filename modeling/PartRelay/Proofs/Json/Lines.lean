import PartRelay.Proofs.Json.ReadBack

/-!
# JSON in lines

An object that is written with a line for each field is read back as it was, and nothing but line
feeds stands in it beside printable ASCII. Main statement: `read_renderLines`.
-/

namespace PartRelay.Json

variable {d : Dialect} {levels : Nat} {fields : List (Text × Json)}

/-- The line of a field. -/
def fieldLine (field : Text × Json) : Text :=
  "  " ++ renderString field.1 ++ ": " ++ render field.2

theorem renderLines_eq (fields : List (Text × Json)) :
    renderLines fields = "\x7b\n" ++ Text.intercalate ",\n" (fields.map fieldLine) ++ "\n\x7d" :=
  rfl

theorem intercalate_cons_cons (sep piece next : Text) (pieces : List Text) :
    Text.intercalate sep (piece :: next :: pieces) =
      piece ++ sep ++ Text.intercalate sep (next :: pieces) := by
  simp [Text.intercalate]

/-! ## Derivations -/

theorem skipBlanks_lineFeed (t : Text) :
    skipBlanks (CodePoint.ofChar '\n' :: t) = skipBlanks t := by
  have blank : isBlank (CodePoint.ofChar '\n') = true := by decide
  simp [skipBlanks, blank]

/-- Past the blanks a line starts with its key. -/
theorem skipBlanks_fieldLine (key : Text) (value : Json) (rest : Text) :
    skipBlanks (fieldLine (key, value) ++ rest) =
      renderString key ++ (Text.ofString ": " ++ (value.render ++ rest)) := by
  have line : fieldLine (key, value) ++ rest = CodePoint.ofChar ' ' :: CodePoint.ofChar ' ' ::
      (renderString key ++ (Text.ofString ": " ++ (value.render ++ rest))) := by
    simp [fieldLine, Text.ofString]
  rw [line, skipBlanks_space, skipBlanks_space, renderString, List.cons_append, List.cons_append,
    skipBlanks_cons (by decide)]

/-- The lines from the start of one on are the members up to the closing brace. -/
theorem derives_lines {field : Text × Json}
    (h : ∀ f ∈ field :: fields, f.1.IsScalar ∧ IsWritten d levels f.2) (usual : d.IsUsual) :
    Derives d levels
      (skipBlanks (Text.intercalate ",\n" ((field :: fields).map fieldLine) ++ "\n\x7d"))
      (.members (joinFields (field :: fields))) [] := by
  obtain ⟨key, value⟩ := field
  obtain ⟨scalar, written⟩ : key.IsScalar ∧ IsWritten d levels value :=
    h (key, value) List.mem_cons_self
  induction fields generalizing key value with
  | nil =>
    have last : Text.intercalate ",\n" ([(key, value)].map fieldLine) = fieldLine (key, value) := by
      simp [Text.intercalate]
    rw [last, skipBlanks_fieldLine]
    exact .lastMember (derives_member scalar written usual _)
      ((skipBlanks_lineFeed _).trans (skipBlanks_cons (by decide) []))
  | cons next fields ih =>
    have later : ∀ f ∈ next :: fields, f.1.IsScalar ∧ IsWritten d levels f.2 :=
      fun f hf => h f (List.mem_cons_of_mem _ hf)
    obtain ⟨nextScalar, nextWritten⟩ := later next List.mem_cons_self
    have more := ih next.1 next.2 later nextScalar nextWritten
    -- The comma ends its line, so that the next line starts with blanks and its key.
    rw [List.map_cons, List.map_cons, intercalate_cons_cons, List.append_assoc, List.append_assoc,
      skipBlanks_fieldLine]
    refine .memberAnd (derives_member scalar written usual _) (skipBlanks_cons (by decide) _) ?_
    exact (skipBlanks_lineFeed _).symm ▸ more

theorem derives_renderLines (h : ∀ f ∈ fields, f.1.IsScalar ∧ IsWritten d levels f.2)
    (usual : d.IsUsual) :
    Derives d (levels + 1) (renderLines fields) (.object (joinFields fields)) [] := by
  rw [renderLines_eq, List.append_assoc]
  cases fields with
  | nil => exact .emptyObject (by decide)
  | cons field fields =>
    refine .object ?_
    exact (skipBlanks_lineFeed _).symm ▸ derives_lines h usual

/-- An object is read back from its lines. -/
theorem read_renderLines (plain : (object fields).IsPlain)
    (writable : (object fields).isWritable = true) :
    read (renderLines fields) = .ok (.object fields) := by
  have usual := Dialect.isUsual_wide (some Integer.digitLimit)
  have written := isWritten_of_fieldsReadable usual fields plain.2.fieldsReadable
    (.inr ⟨rfl, by rwa [isWritable] at writable⟩)
  have whole := Derives.fields (derives_renderLines written usual)
  rw [joinFields_of_fieldsPlain plain.2] at whole
  have same : Table.ofWrites fields = fields := Table.update_of_nodup plain.1
  rw [same] at whole
  exact read_eq_ok_iff.mpr ⟨_, [], (whole.skipBlanks_eq usual).symm ▸ whole, rfl⟩

/-! ## What stands in lines -/

theorem isPrintableLines_intercalate {pieces : List Text}
    (h : ∀ piece ∈ pieces, piece.IsPrintableLines) :
    (Text.intercalate ",\n" pieces).IsPrintableLines := by
  have comma : (Text.ofString ",\n").IsPrintableLines := by
    rw [Text.IsPrintableLines]
    decide
  induction pieces with
  | nil => exact List.forall_mem_nil _
  | cons piece pieces ih =>
    cases pieces with
    | nil => simpa [Text.intercalate] using h
    | cons next pieces =>
      obtain ⟨first, others⟩ := List.forall_mem_cons.mp h
      rw [intercalate_cons_cons]
      exact (first.append comma).append (ih others)

theorem fieldsPlain_iff :
    FieldsPlain fields ↔ ∀ field ∈ fields, field.1.IsScalar ∧ field.2.IsPlain := by
  induction fields with
  | nil => exact ⟨fun _ => List.forall_mem_nil _, fun _ => trivial⟩
  | cons field fields ih =>
    rw [FieldsPlain, ih, List.forall_mem_cons, and_assoc]

theorem isPrintableAscii_fieldLine {field : Text × Json} (plain : field.2.IsPlain) :
    (fieldLine field).IsPrintableAscii := by
  have margin : (Text.ofString "  ").IsPrintableAscii := by rw [Text.IsPrintableAscii]; decide
  have colon : (Text.ofString ": ").IsPrintableAscii := by rw [Text.IsPrintableAscii]; decide
  exact ((margin.append (isPrintableAscii_renderString _)).append colon).append
    (isPrintableAscii_render _ plain.isReadable)

theorem isPrintableLines_renderLines (plain : FieldsPlain fields) :
    (renderLines fields).IsPrintableLines := by
  have brace : (Text.ofString "\x7b\n").IsPrintableLines ∧
      (Text.ofString "\n\x7d").IsPrintableLines := by
    rw [Text.IsPrintableLines, Text.IsPrintableLines]
    decide
  have lines : ∀ piece ∈ fields.map fieldLine, piece.IsPrintableLines := by
    intro piece member
    obtain ⟨field, among, rfl⟩ := List.mem_map.mp member
    have plain := (fieldsPlain_iff.mp plain field among).2
    exact (isPrintableAscii_fieldLine plain).isPrintableLines
  exact (brace.1.append (isPrintableLines_intercalate lines)).append brace.2

end PartRelay.Json
