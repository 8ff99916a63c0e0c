import PartRelay.Proofs.Bytes.Base64Text
import PartRelay.Proofs.Json.ReadBack
import PartRelay.Proofs.Results
import PartRelay.Proofs.Text.Utf8
import PartRelay.Store.Basic

/-!
# Views read back

A record is read from the bytes that it is stored as. So a view gives what it was last given under a
key and a version, and a key of a view has a place of its own in the raw store.
-/

namespace PartRelay

/-! ## Values that are stored -/

namespace Json

/-- What is written of a plain value can be read again, bytes and all. -/
theorem read_of_render? {j : Json} {levels : Nat} (plain : j.IsPlain) (enough : j.depth ≤ levels)
    {t : Text} (h : j.render? = .ok t) :
    Utf8.read (Utf8.write t) = .ok t ∧ readWithin levels t = .ok j := by
  rw [render?] at h
  split at h
  next writable =>
    cases h
    exact ⟨Utf8.read_write_of_isAscii (isPrintableAscii_render j plain.isReadable).isAscii,
      readWithin_render plain writable enough⟩
  next => cases h

/-- The bytes of base64 text. -/
theorem toBytes_write (bs : Bytes) : (Json.string (Base64.write bs)).toBytes = .ok bs := by
  rw [toBytes, Base64.readLenient_write]
  rfl

end Json

/-! ## Records -/

namespace Record

theorem isPlain_toJson (r : Record) : r.toJson.IsPlain := by
  have names : (Text.ofString "data").IsScalar ∧ (Text.ofString "timestamp_ms").IsScalar ∧
      (Text.ofString "version").IsScalar := by
    simp only [Text.IsScalar]
    decide
  refine ⟨?_, names.1, Base64.isScalar_write r.data, names.2.1, trivial, names.2.2, trivial,
    trivial⟩
  simp only [List.map_cons, List.map_nil]
  decide

theorem isWritable_toJson (r : Record) :
    r.toJson.isWritable = (Integer.isWritable r.timestampMs && Integer.isWritable r.version) := by
  simp [toJson, Json.isWritable, Json.fieldsWritable]

theorem ofJson_toJson (r : Record) : ofJson r.toJson = .ok r := by
  have version : r.toJson.requireInt "version" = .ok r.version := rfl
  have time : r.toJson.requireInt "timestamp_ms" = .ok r.timestampMs := rfl
  have data : r.toJson.requireBytes "data" = .ok r.data := Json.toBytes_write r.data
  rw [ofJson]
  simp only [version, time, data]

/-- A record is one level. -/
theorem depth_toJson (r : Record) : r.toJson.depth = 1 := rfl

theorem decode_encode {r : Record} {bs : Bytes} {levels : Nat} (h : r.encode = .ok bs)
    (enough : 1 ≤ levels) : decode levels bs = .ok r := by
  rw [encode] at h
  obtain ⟨t, text, rfl⟩ := map_eq_ok.mp h
  obtain ⟨bytes, value⟩ := Json.read_of_render? r.isPlain_toJson enough text
  rw [decode, bytes]
  simp only [value, ofJson_toJson]
  rfl

/-- A record can be stored when its version and its time can be written. -/
theorem encode_ok {r : Record} (version : Integer.isWritable r.version = true)
    (time : Integer.isWritable r.timestampMs = true) : ∃ bs, r.encode = .ok bs := by
  refine ⟨Utf8.write r.toJson.render, ?_⟩
  rw [encode, Json.render?, if_pos (by rw [isWritable_toJson, version, time]; rfl)]
  rfl

end Record

/-! ## Places in the raw store -/

namespace View

theorem rawKey_injective (v : View) (version : Int) {key key' : Text}
    (h : v.rawKey key version = v.rawKey key' version) : key = key' := by
  simp only [rawKey, List.append_assoc] at h
  exact List.append_cancel_right (List.append_cancel_left h)

/-! ## Views beside each other -/

theorem child_eq_ok {v child : View} {name : Text} (h : v.child name = .ok child) :
    child.path = v.path ++ (name ++ [CodePoint.ofChar '/']) ∧ CodePoint.ofChar '/' ∉ name := by
  rw [View.child] at h
  split at h
  · cases h
  next valid =>
    cases h
    rw [Bool.or_eq_true, not_or, List.contains_iff_mem] at valid
    exact ⟨List.append_assoc .., valid.2⟩

/-- A step of a path ends at its slash, and what follows has no say in it; so it is with any other
mark that a text does not hold. -/
theorem takeWhile_step {mark : CodePoint} {name rest : Text} (h : mark ∉ name) :
    (name ++ mark :: rest).takeWhile (· != mark) = name := by
  have all : ∀ c ∈ name, (c != mark) = true := by
    intro c hc
    rw [bne_iff_ne]
    rintro rfl
    exact h hc
  rw [List.takeWhile_append_of_pos all, List.takeWhile_cons_of_neg (by simp), List.append_nil]

/-- No key of a view and no version of it has its place among those of a view with another name. -/
theorem rawKey_ne_of_name_ne {v child other : View} {name name' : Text}
    (h : v.child name = .ok child) (h' : v.child name' = .ok other) (ne : name ≠ name')
    (key key' : Text) (version version' : Int) :
    child.rawKey key version ≠ other.rawKey key' version' := by
  obtain ⟨path, slash⟩ := child_eq_ok h
  obtain ⟨path', slash'⟩ := child_eq_ok h'
  intro eq
  simp only [rawKey, path, path', List.append_assoc, List.cons_append, List.nil_append] at eq
  have steps := congrArg (List.takeWhile (· != CodePoint.ofChar '/')) (List.append_cancel_left eq)
  rw [takeWhile_step slash, takeWhile_step slash'] at steps
  exact ne steps

/-! ## Reading after writing -/

variable {v : View} {store store' : Store} {now version : Int} {key : Text} {data : Bytes}

/-- A write puts one record under one raw key. -/
theorem set_eq_ok (h : v.set store now key version data = .ok store') :
    ∃ bs, (Record.mk version now data).encode = .ok bs ∧
      store' = Table.set store (v.rawKey key version) bs := by
  rw [set] at h
  obtain ⟨bs, bytes, rfl⟩ := map_eq_ok.mp h
  exact ⟨bs, bytes, rfl⟩

theorem set_ok (v : View) (store : Store) (key : Text) (data : Bytes)
    (hv : Integer.isWritable version = true) (hn : Integer.isWritable now = true) :
    ∃ store', v.set store now key version data = .ok store' := by
  obtain ⟨bs, h⟩ := Record.encode_ok (r := ⟨version, now, data⟩) hv hn
  rw [set, h]
  exact ⟨_, rfl⟩

/-- Nothing is written at a time that cannot be written itself. -/
theorem set_of_unwritable (v : View) (store : Store) (key : Text) (version : Int) (data : Bytes)
    (h : Integer.isWritable now = false) : v.set store now key version data = .error .tooLong := by
  have unwritable : (Record.mk version now data).toJson.isWritable = false := by
    rw [Record.isWritable_toJson, h, Bool.false_and]
  rw [set, Record.encode, Json.render?, if_neg (by simp [unwritable])]
  rfl

theorem get_of_encoded {r : Record} {bs : Bytes} (h : r.encode = .ok bs) (hv : r.version = version)
    (entry : Table.get? store (v.rawKey key version) = some bs) :
    v.get store key version = .ok r := by
  rw [get, entry]
  have decoded := Record.decode_encode h (Nat.le_of_succ_le v.levels.two_le)
  simp only [decoded, hv, ne_eq, not_true_eq_false, if_false]

/-- A view gives what it was last given, with the time of writing. -/
theorem get_of_set (h : v.set store now key version data = .ok store') :
    v.get store' key version = .ok ⟨version, now, data⟩ := by
  obtain ⟨bs, encoded, rfl⟩ := set_eq_ok h
  exact get_of_encoded encoded rfl (Table.get?_set_self ..)

theorem get_of_absent (entry : Table.get? store (v.rawKey key version) = none) :
    v.get store key version = .error (.absent (v.rawKey key version)) := by
  rw [get, entry]

/-- The whole store, with no more levels than there must be. -/
def shallow : View := { levels := ⟨2, Nat.le_refl 2⟩ }

end View

end PartRelay
