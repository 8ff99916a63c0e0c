import PartRelay.Proofs.Json.Levels
import PartRelay.Proofs.Json.Reading
import PartRelay.Proofs.Json.Strings
import PartRelay.Proofs.Table

/-!
# JSON read back

A value without fractions is read as it was written, as long as its integers keep to the limit of
digits, its strings are characters only, and no object holds a key twice. Main statement:
`read_render`, and `readWithin_render` where there are levels enough for it. Strings with surrogates
are read as `joinText` says: `read_render_join`. What is written is printable ASCII, and standard
JSON whatever its integers are: `spells_render`.
-/

namespace PartRelay.Json

/-! ## Values that read back -/

mutual

/-- No fractions, only characters in keys, and every key of an object once. -/
def IsReadable : Json → Prop
  | .float _ => False
  | .array items => AreReadable items
  | .object fields => (fields.map Prod.fst).Nodup ∧ FieldsReadable fields
  | _ => True

def AreReadable : List Json → Prop
  | [] => True
  | item :: items => IsReadable item ∧ AreReadable items

def FieldsReadable : List (Text × Json) → Prop
  | [] => True
  | (key, value) :: fields => key.IsScalar ∧ IsReadable value ∧ FieldsReadable fields

end

mutual

/-- A value as it is read, with the surrogates of its strings joined. -/
def join : Json → Json
  | .string s => .string (joinText s)
  | .array items => .array (joinItems items)
  | .object fields => .object (joinFields fields)
  | j => j

def joinItems : List Json → List Json
  | [] => []
  | item :: items => join item :: joinItems items

def joinFields : List (Text × Json) → List (Text × Json)
  | [] => []
  | (key, value) :: fields => (key, join value) :: joinFields fields

end

theorem keys_joinFields (fields : List (Text × Json)) :
    Table.keys (joinFields fields) = Table.keys fields := by
  induction fields with
  | nil => rfl
  | cons field fields ih => exact congrArg (field.1 :: ·) ih

mutual

/-- No fractions, only characters in strings, and every key of an object once. -/
def IsPlain : Json → Prop
  | .float _ => False
  | .string s => s.IsScalar
  | .array items => ArePlain items
  | .object fields => (fields.map Prod.fst).Nodup ∧ FieldsPlain fields
  | _ => True

def ArePlain : List Json → Prop
  | [] => True
  | item :: items => IsPlain item ∧ ArePlain items

def FieldsPlain : List (Text × Json) → Prop
  | [] => True
  | (key, value) :: fields => key.IsScalar ∧ IsPlain value ∧ FieldsPlain fields

end

/-! A plain value is a readable one that is read as it is. -/

mutual

theorem IsPlain.isReadable {j : Json} (plain : j.IsPlain) : j.IsReadable := by
  cases j with
  | float x => exact plain.elim
  | array items => exact ArePlain.areReadable plain
  | object fields => exact ⟨plain.1, FieldsPlain.fieldsReadable plain.2⟩
  | _ => exact trivial

theorem ArePlain.areReadable {items : List Json} (plain : ArePlain items) : AreReadable items := by
  cases items with
  | nil => exact trivial
  | cons item items => exact ⟨IsPlain.isReadable plain.1, ArePlain.areReadable plain.2⟩

theorem FieldsPlain.fieldsReadable {fields : List (Text × Json)} (plain : FieldsPlain fields) :
    FieldsReadable fields := by
  cases fields with
  | nil => exact trivial
  | cons field fields =>
    exact ⟨plain.1, IsPlain.isReadable plain.2.1, FieldsPlain.fieldsReadable plain.2.2⟩

end

mutual

theorem join_of_isPlain {j : Json} (plain : j.IsPlain) : j.join = j := by
  cases j with
  | string s => exact congrArg Json.string (joinText_of_isScalar plain)
  | array items => exact congrArg Json.array (joinItems_of_arePlain plain)
  | object fields => exact congrArg Json.object (joinFields_of_fieldsPlain plain.2)
  | _ => rfl

theorem joinItems_of_arePlain {items : List Json} (plain : ArePlain items) :
    joinItems items = items := by
  cases items with
  | nil => rfl
  | cons item items =>
    rw [joinItems, join_of_isPlain plain.1, joinItems_of_arePlain plain.2]

theorem joinFields_of_fieldsPlain {fields : List (Text × Json)} (plain : FieldsPlain fields) :
    joinFields fields = fields := by
  cases fields with
  | nil => rfl
  | cons field fields =>
    obtain ⟨key, value⟩ := field
    rw [joinFields, join_of_isPlain plain.2.1, joinFields_of_fieldsPlain plain.2.2]

end

theorem joinFields_eq_self {fields : List (Text × Json)}
    (h : ∀ field ∈ fields, field.2.join = field.2) : joinFields fields = fields := by
  induction fields with
  | nil => rfl
  | cons field fields ih =>
    obtain ⟨key, value⟩ := field
    obtain ⟨first, others⟩ := List.forall_mem_cons.mp h
    rw [joinFields, ih others, first]

/-! ## Numbers -/

/-- The dialect takes integers of any length, or those that can be written. -/
def Dialect.Takes (d : Dialect) (writable : Bool) : Prop :=
  d.limit = none ∨ d.limit = some Integer.digitLimit ∧ writable = true

variable {d : Dialect} {levels : Nat}

theorem Dialect.Takes.and_iff {a b : Bool} : d.Takes (a && b) ↔ d.Takes a ∧ d.Takes b := by
  rw [Takes, Takes, Takes, Bool.and_eq_true, ← or_and_left, and_and_left]

/-- A numeral is a whole number. -/
theorem isWhole_ofNat (n : Nat) : IsWhole (Text.ofNat n) where
  digits := ⟨Text.ofNat_ne_nil n, fun _ => Text.isDigit_of_mem_ofNat⟩
  lead := by
    by_cases zero : n = 0
    · subst zero
      exact fun _ => rfl
    · exact fun lead => absurd lead (Text.head_ofNat_ne_zero zero)

theorem minus_ofNat (n : Int) : minus (n < 0) ++ Text.ofNat n.natAbs = Text.ofInt n := by
  by_cases negative : n < 0
  · simp [minus, Text.ofInt, negative]
  · simp [minus, Text.ofInt, negative]

theorem signed_natAbs (n : Int) : signed (n < 0) n.natAbs = n := by
  by_cases negative : n < 0
  · rw [signed, if_pos (decide_eq_true negative),
      Int.ofNat_natAbs_of_nonpos (Int.le_of_lt negative), Int.neg_neg]
  · rw [signed, if_neg (by simpa using negative), Int.natAbs_of_nonneg (Int.not_lt.mp negative)]

theorem number_ofInt {n : Int} (takes : d.Takes (Integer.isWritable n)) :
    Number d.limit (Text.ofInt n) (.int n) := by
  have short : ∀ most ∈ d.limit, (Text.ofNat n.natAbs).length ≤ most := by
    rcases takes with unlimited | ⟨limited, writable⟩
    · rw [unlimited]
      exact nofun
    · rw [limited]
      rintro _ ⟨⟩
      exact Integer.length_ofNat_le (Integer.isWritable_iff.mp writable)
  have number : Number d.limit (minus (n < 0) ++ Text.ofNat n.natAbs) _ :=
    .int (isWhole_ofNat n.natAbs) short
  rwa [minus_ofNat, Digits.value_ofNat, signed_natAbs] at number

/-! ## Values -/

/-- What is written of the value is the value with its strings joined, whatever follows it, and so
many levels are enough for it. -/
def IsWritten (d : Dialect) (levels : Nat) (j : Json) : Prop :=
  ∀ rest, Derives d levels (j.render ++ rest) (.value j.join) rest

theorem IsWritten.mono {j : Json} (h : IsWritten d levels j) {more : Nat} (le : levels ≤ more) :
    IsWritten d more j :=
  fun rest => (h rest).mono le

theorem isWritten_word (usual : d.IsUsual) (h : (j.render, j.join) ∈ Dialect.standard.words) :
    IsWritten d levels j :=
  fun _ => .word (usual.standard h) rfl

theorem isWritten_int {n : Int} (takes : d.Takes (Integer.isWritable n)) :
    IsWritten d levels (.int n) := by
  intro rest
  rw [render]
  exact .number (number_ofInt takes) rfl

/-- A string is written as the text that it is read as. -/
theorem isString_render (s rest : Text) :
    IsString (s.flatMap renderPoint ++ CodePoint.ofChar '"' :: rest) (joinText s) rest :=
  (readString_eq_ok_iff []).mp (readString_render [] rest s ([], false))

theorem isWritten_string (s : Text) : IsWritten d levels (.string s) := by
  intro rest
  rw [render, renderString, List.cons_append, List.cons_append, List.append_assoc]
  exact .string (isString_render s rest)

theorem derives_member {key : Text} {value : Json} (hk : key.IsScalar)
    (h : IsWritten d levels value) (usual : d.IsUsual) (rest : Text) :
    Derives d levels (renderString key ++ (Text.ofString ": " ++ (value.render ++ rest)))
      (.member key value.join) rest := by
  have derived := h rest
  have colon : skipBlanks (Text.ofString ": " ++ (value.render ++ rest)) =
      CodePoint.ofChar ':' :: CodePoint.ofChar ' ' :: (value.render ++ rest) :=
    skipBlanks_cons (by decide) _
  rw [renderString, List.cons_append, List.cons_append, List.append_assoc]
  refine .member ?_ colon ?_
  · have token := isString_render key (Text.ofString ": " ++ (value.render ++ rest))
    rwa [joinText_of_isScalar hk] at token
  · rwa [skipBlanks_space, derived.skipBlanks_eq usual]

/-- The items from the start of one on are written up to the closing bracket. -/
theorem derives_items {item : Json} {items : List Json}
    (h : ∀ j ∈ item :: items, IsWritten d levels j) (usual : d.IsUsual) (rest : Text) :
    Derives d levels (item.render ++ (renderItems items ++ CodePoint.ofChar ']' :: rest))
      (.items (joinItems (item :: items))) rest := by
  have first := h item List.mem_cons_self
  induction items generalizing item with
  | nil => exact .lastItem (first _) (skipBlanks_cons (by decide) rest)
  | cons next items ih =>
    have comma : (renderItems (next :: items) ++ CodePoint.ofChar ']' :: rest) =
        CodePoint.ofChar ',' :: CodePoint.ofChar ' ' ::
          (next.render ++ (renderItems items ++ CodePoint.ofChar ']' :: rest)) := by
      simp [renderItems, Text.ofString]
    have later : ∀ j ∈ next :: items, IsWritten d levels j :=
      fun j hj => h j (List.mem_cons_of_mem _ hj)
    have following := later next List.mem_cons_self
    have more := ih later following
    rw [comma]
    refine .item (first _) (skipBlanks_cons (by decide) _) ?_
    rwa [skipBlanks_space, more.skipBlanks_eq usual]

/-- The members from the start of one on are written up to the closing brace. -/
theorem derives_members {key : Text} {value : Json} {fields : List (Text × Json)}
    (h : ∀ field ∈ (key, value) :: fields, field.1.IsScalar ∧ IsWritten d levels field.2)
    (usual : d.IsUsual) (rest : Text) :
    Derives d levels (renderString key ++ (Text.ofString ": " ++
      (value.render ++ (renderFields fields ++ CodePoint.ofChar '}' :: rest))))
      (.members (joinFields ((key, value) :: fields))) rest := by
  obtain ⟨hk, hv⟩ : key.IsScalar ∧ IsWritten d levels value := h (key, value) List.mem_cons_self
  induction fields generalizing key value with
  | nil => exact .lastMember (derives_member hk hv usual _) (skipBlanks_cons (by decide) rest)
  | cons next fields ih =>
    obtain ⟨nextKey, nextValue⟩ := next
    have comma : (renderFields ((nextKey, nextValue) :: fields) ++ CodePoint.ofChar '}' :: rest) =
        CodePoint.ofChar ',' :: CodePoint.ofChar ' ' ::
          (renderString nextKey ++ (Text.ofString ": " ++
            (nextValue.render ++ (renderFields fields ++ CodePoint.ofChar '}' :: rest)))) := by
      simp [renderFields, Text.ofString]
    have later : ∀ field ∈ (nextKey, nextValue) :: fields,
        field.1.IsScalar ∧ IsWritten d levels field.2 :=
      fun field hf => h field (List.mem_cons_of_mem _ hf)
    obtain ⟨nextScalar, nextWritten⟩ : nextKey.IsScalar ∧ IsWritten d levels nextValue :=
      later (nextKey, nextValue) List.mem_cons_self
    have more := ih later nextScalar nextWritten
    rw [comma]
    refine .memberAnd (derives_member hk hv usual _) (skipBlanks_cons (by decide) _) ?_
    rwa [skipBlanks_space, more.skipBlanks_eq usual]

theorem isWritten_array {items : List Json} (h : ∀ j ∈ items, IsWritten d levels j)
    (usual : d.IsUsual) : IsWritten d (levels + 1) (.array items) := by
  intro rest
  cases items with
  | nil => exact .emptyArray (skipBlanks_cons (by decide) rest)
  | cons item items =>
    have more := derives_items h usual rest
    rw [render]
    simp only [List.cons_append, List.append_assoc, List.nil_append]
    refine .array ?_
    rwa [more.skipBlanks_eq usual]

/-- The members of a written object are its fields. -/
theorem derives_object {fields : List (Text × Json)}
    (h : ∀ field ∈ fields, field.1.IsScalar ∧ IsWritten d levels field.2) (usual : d.IsUsual)
    (rest : Text) :
    Derives d (levels + 1) ((Json.object fields).render ++ rest) (.object (joinFields fields))
      rest := by
  cases fields with
  | nil => exact .emptyObject (skipBlanks_cons (by decide) rest)
  | cons field fields =>
    obtain ⟨key, value⟩ := field
    have more := derives_members h usual rest
    rw [render]
    simp only [List.cons_append, List.append_assoc, List.nil_append]
    refine .object ?_
    rwa [more.skipBlanks_eq usual]

theorem isWritten_object {fields : List (Text × Json)} (distinct : (fields.map Prod.fst).Nodup)
    (h : ∀ field ∈ fields, field.1.IsScalar ∧ IsWritten d levels field.2) (usual : d.IsUsual) :
    IsWritten d (levels + 1) (.object fields) := by
  intro rest
  have whole : Table.ofWrites (joinFields fields) = joinFields fields :=
    Table.update_of_nodup ((congrArg List.Nodup (keys_joinFields fields)).mpr distinct)
  rw [join, ← whole]
  exact .fields (derives_object h usual rest)

mutual

theorem isWritten_of_readable (usual : d.IsUsual) (j : Json) (readable : j.IsReadable)
    (takes : d.Takes j.isWritable) : IsWritten d j.depth j := by
  cases j with
  | null => exact isWritten_word usual (by simp [Dialect.standard, render, join])
  | bool b => cases b <;> exact isWritten_word usual (by simp [Dialect.standard, render, join])
  | int n =>
    rw [isWritable] at takes
    exact isWritten_int takes
  | float x => exact readable.elim
  | string s => exact isWritten_string s
  | array items =>
    rw [isWritable] at takes
    rw [depth]
    exact isWritten_array (isWritten_of_areReadable usual items readable takes) usual
  | object fields =>
    rw [isWritable] at takes
    rw [depth]
    exact isWritten_object readable.1 (isWritten_of_fieldsReadable usual fields readable.2 takes)
      usual

theorem isWritten_of_areReadable (usual : d.IsUsual) (items : List Json)
    (readable : AreReadable items) (takes : d.Takes (areWritable items)) :
    ∀ j ∈ items, IsWritten d (itemsDepth items) j := by
  cases items with
  | nil => exact List.forall_mem_nil _
  | cons item items =>
    rw [areWritable, Dialect.Takes.and_iff] at takes
    have first := isWritten_of_readable usual item readable.1 takes.1
    have others := isWritten_of_areReadable usual items readable.2 takes.2
    rw [itemsDepth]
    exact List.forall_mem_cons.mpr ⟨first.mono (Nat.le_max_left ..),
      fun j hj => (others j hj).mono (Nat.le_max_right ..)⟩

theorem isWritten_of_fieldsReadable (usual : d.IsUsual) (fields : List (Text × Json))
    (readable : FieldsReadable fields) (takes : d.Takes (fieldsWritable fields)) :
    ∀ field ∈ fields, field.1.IsScalar ∧ IsWritten d (fieldsDepth fields) field.2 := by
  cases fields with
  | nil => exact List.forall_mem_nil _
  | cons field fields =>
    obtain ⟨key, value⟩ := field
    rw [fieldsWritable, Dialect.Takes.and_iff] at takes
    have first := isWritten_of_readable usual value readable.2.1 takes.1
    have others := isWritten_of_fieldsReadable usual fields readable.2.2 takes.2
    rw [fieldsDepth]
    exact List.forall_mem_cons.mpr ⟨⟨readable.1, first.mono (Nat.le_max_left ..)⟩,
      fun field hf => ⟨(others field hf).1, (others field hf).2.mono (Nat.le_max_right ..)⟩⟩

end

/-! ## What is written is printable ASCII -/

mutual

theorem isPrintableAscii_render (j : Json) (readable : j.IsReadable) :
    j.render.IsPrintableAscii := by
  cases j with
  | null => rw [render, Text.IsPrintableAscii]; decide
  | bool b => cases b <;> rw [render, Text.IsPrintableAscii] <;> decide
  | int n => exact Text.isPrintableAscii_ofInt n
  | float x => exact readable.elim
  | string s => exact isPrintableAscii_renderString s
  | array items =>
    cases items with
    | nil => rw [render, Text.IsPrintableAscii]; decide
    | cons item items =>
      have first := isPrintableAscii_render item readable.1
      have others := isPrintableAscii_renderItems items readable.2
      rw [render]
      exact ((Text.IsPrintableAscii.cons (by decide) first).append others).append
        (.cons (by decide) Text.isPrintableAscii_nil)
  | object fields =>
    cases fields with
    | nil => rw [render, Text.IsPrintableAscii]; decide
    | cons field fields =>
      obtain ⟨key, value⟩ := field
      have first := isPrintableAscii_render value readable.2.2.1
      have others := isPrintableAscii_renderFields fields readable.2.2.2
      have colon : (Text.ofString ": ").IsPrintableAscii := by rw [Text.IsPrintableAscii]; decide
      rw [render]
      exact ((((Text.IsPrintableAscii.cons (by decide) (isPrintableAscii_renderString key)).append
        colon).append first).append others).append (.cons (by decide) Text.isPrintableAscii_nil)

theorem isPrintableAscii_renderItems (items : List Json) (readable : AreReadable items) :
    (renderItems items).IsPrintableAscii := by
  cases items with
  | nil => exact Text.isPrintableAscii_nil
  | cons item items =>
    have first := isPrintableAscii_render item readable.1
    have others := isPrintableAscii_renderItems items readable.2
    have comma : (Text.ofString ", ").IsPrintableAscii := by rw [Text.IsPrintableAscii]; decide
    rw [renderItems]
    exact (comma.append first).append others

theorem isPrintableAscii_renderFields (fields : List (Text × Json))
    (readable : FieldsReadable fields) : (renderFields fields).IsPrintableAscii := by
  cases fields with
  | nil => exact Text.isPrintableAscii_nil
  | cons field fields =>
    obtain ⟨key, value⟩ := field
    have first := isPrintableAscii_render value readable.2.1
    have others := isPrintableAscii_renderFields fields readable.2.2
    have comma : (Text.ofString ", ").IsPrintableAscii := by rw [Text.IsPrintableAscii]; decide
    have colon : (Text.ofString ": ").IsPrintableAscii := by rw [Text.IsPrintableAscii]; decide
    rw [renderFields]
    exact (((comma.append (isPrintableAscii_renderString key)).append colon).append first).append
      others

end

/-! ## Whole texts -/

/-- What is written of a value is the value with its strings joined, in any dialect that has room
for its integers, and its own levels are enough. -/
theorem spellsWithin_render {j : Json} (usual : d.IsUsual) (readable : j.IsReadable)
    (takes : d.Takes j.isWritable) (enough : j.depth ≤ levels) :
    SpellsWithin d levels j.render (.value j.join) := by
  have derived := (isWritten_of_readable usual j readable takes).mono enough []
  rw [List.append_nil] at derived
  exact ⟨[], (derived.skipBlanks_eq usual).symm ▸ derived, rfl⟩

theorem spells_render {j : Json} (usual : d.IsUsual) (readable : j.IsReadable)
    (takes : d.Takes j.isWritable) : Spells d j.render (.value j.join) :=
  ⟨_, spellsWithin_render usual readable takes (Nat.le_refl _)⟩

theorem spells_object_render {fields : List (Text × Json)} (usual : d.IsUsual)
    (plain : FieldsPlain fields) (takes : d.Takes (fieldsWritable fields)) :
    Spells d (Json.object fields).render (.object fields) := by
  have derived := derives_object
    (isWritten_of_fieldsReadable usual fields plain.fieldsReadable takes) usual []
  rw [List.append_nil, joinFields_of_fieldsPlain plain] at derived
  exact ⟨_, [], (derived.skipBlanks_eq usual).symm ▸ derived, rfl⟩

theorem render_ne_nil {j : Json} (readable : j.IsReadable) : j.render ≠ [] := by
  obtain ⟨_, rest, derived, _⟩ :=
    spells_render Dialect.isUsual_standard readable (.inl rfl)
  intro empty
  rw [empty] at derived
  exact absurd derived.length_lt (Nat.not_lt_zero _)

/-- A value is read from what it is written as, with its strings joined. -/
theorem read_render_join {j : Json} (readable : j.IsReadable) (hw : j.isWritable = true) :
    read j.render = .ok j.join :=
  read_eq_ok_iff.mpr
    (spells_render (Dialect.isUsual_wide _) readable (.inr ⟨rfl, hw⟩))

/-- A plain value is read back from what it is written as. -/
theorem read_render {j : Json} (plain : j.IsPlain) (hw : j.isWritable = true) :
    read j.render = .ok j := by
  rw [read_render_join plain.isReadable hw, join_of_isPlain plain]

/-- A plain value that is no array and no object. -/
structure IsLeaf (j : Json) : Prop where
  plain : j.IsPlain
  depth : j.depth = 0

/-- So it is with as many levels as it has, or more. -/
theorem readWithin_render {j : Json} (plain : j.IsPlain) (hw : j.isWritable = true)
    (enough : j.depth ≤ levels) : readWithin levels j.render = .ok j := by
  have spelled : SpellsWithin .accepted levels j.render (.value j.join) :=
    spellsWithin_render (Dialect.isUsual_wide _) plain.isReadable (.inr ⟨rfl, hw⟩) enough
  rw [join_of_isPlain plain] at spelled
  exact readWithin_eq_ok_iff.mpr spelled

end PartRelay.Json
