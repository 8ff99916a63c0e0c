import PartRelay.Proofs.Bytes.Base64Text
import PartRelay.Proofs.Fragment
import PartRelay.Proofs.Json.ReadBack
import PartRelay.Proofs.Json.ReadNumbers
import PartRelay.Proofs.Text.Utf8

/-!
# Requests that give a fragment

A request gives a fragment if it is a `POST` whose body is the text of a JSON object with five
members that are in order; what else the object holds has no say. A method that is not `POST` is
told apart from every fault of a body. Main statement: `ofRequest_decides`.
-/

namespace PartRelay

namespace Json

/-- The last of the members with a key. -/
def lastMember? (members : List (Text × Json)) (key : Text) : Option Json :=
  Table.get? members.reverse key

/-- A member that is null counts as one that is not there. -/
def IsAbsent (members : List (Text × Json)) (key : Text) : Prop :=
  lastMember? members key = none ∨ lastMember? members key = some .null

end Json

namespace Fragment

open Json (lastMember? IsAbsent)

variable {members : List (Text × Json)} {key : Text} {f : Fragment}

/-! ## Members -/

/-- The bytes are the text of an object with these members, in their order. -/
def IsObjectText (d : Json.Dialect) (body : Bytes) (members : List (Text × Json)) : Prop :=
  ∃ t : Text, t.IsScalar ∧ Utf8.write t = body ∧ Json.Spells d t (.object members)

/-- The members that a request is taken with. -/
structure IsAdmissible (members : List (Text × Json)) : Prop where
  sender : ∃ t s, lastMember? members "senderId" = some (.string t) ∧
    Sender.parse (some t) = .ok s
  payload : ∃ t bs, lastMember? members "payload" = some (.string t) ∧ Base64.readStrict t = .ok bs
  fingerprint : IsAbsent members "relationshipFingerprint" ∨
    ∃ t, lastMember? members "relationshipFingerprint" = some (.string t) ∧
      (t = [] ∨ ∃ bs, Base64.readStrict t = .ok bs)
  messageType : IsAbsent members "messageType" ∨
    ∃ n, lastMember? members "messageType" = some (.int n) ∧ 0 ≤ n ∧ n ≤ 0xFFFFFFFF
  timestampNs : IsAbsent members "timestampNs" ∨
    ∃ n, lastMember? members "timestampNs" = some (.int n) ∧
      -0x8000000000000000 ≤ n ∧ n ≤ 0x7FFFFFFFFFFFFFFF

/-- The fragment that the members describe. -/
structure Describes (members : List (Text × Json)) (f : Fragment) : Prop where
  sender : ∃ t, lastMember? members "senderId" = some (.string t) ∧
    Sender.parse (some t) = .ok f.sender ∧ Base64.readStrict t = .ok f.sender.raw
  payload : ∃ t, lastMember? members "payload" = some (.string t) ∧
    Base64.readStrict t = .ok f.payload
  fingerprint : f.fingerprint = none ∧ (IsAbsent members "relationshipFingerprint" ∨
      lastMember? members "relationshipFingerprint" = some (.string [])) ∨
    ∃ t bs, f.fingerprint = some bs ∧ bs ≠ [] ∧ Base64.readStrict t = .ok bs ∧
      lastMember? members "relationshipFingerprint" = some (.string t)
  messageType : f.messageType = 2 ∧ IsAbsent members "messageType" ∨
    0 ≤ f.messageType ∧ f.messageType ≤ 0xFFFFFFFF ∧
      lastMember? members "messageType" = some (.int f.messageType)
  timestampNs : f.timestampNs = none ∧ IsAbsent members "timestampNs" ∨
    ∃ n, f.timestampNs = some n ∧ -0x8000000000000000 ≤ n ∧ n ≤ 0x7FFFFFFFFFFFFFFF ∧
      lastMember? members "timestampNs" = some (.int n)

/-! ## Single fields -/

theorem fieldOrNull_ofWrites (members : List (Text × Json)) (key : Text) :
    (Json.object (Table.ofWrites members)).fieldOrNull key =
      (lastMember? members key).getD .null := by
  rw [Json.fieldOrNull, Json.field?, Table.get?_ofWrites, lastMember?]

theorem isAbsent_iff : IsAbsent members key ↔ (lastMember? members key).getD .null = .null := by
  unfold IsAbsent
  cases lastMember? members key with
  | none => simp
  | some value => simp

theorem textField_eq_ok_iff {o : Option Text} :
    textField (.object (Table.ofWrites members)) key = .ok o ↔
      o = none ∧ IsAbsent members key ∨
        ∃ t, o = some t ∧ lastMember? members key = some (.string t) := by
  rw [textField, fieldOrNull_ofWrites, isAbsent_iff]
  cases lastMember? members key with
  | none => simp [eq_comm]
  | some value => cases value <;> simp [eq_comm]

theorem intField_eq_ok_iff {low high : Int} {o : Option Int} :
    intField (.object (Table.ofWrites members)) key low high = .ok o ↔
      o = none ∧ IsAbsent members key ∨
        ∃ n, o = some n ∧ (low ≤ n ∧ n ≤ high) ∧ lastMember? members key = some (.int n) := by
  rw [intField, fieldOrNull_ofWrites, isAbsent_iff]
  cases lastMember? members key with
  | none => simp [eq_comm]
  | some value =>
    cases value with
    | int n =>
      by_cases range : low ≤ n ∧ n ≤ high
      · simp [range, eq_comm]
      · simp [range]
    | _ => simp [eq_comm]

theorem readStrict_of_parse {o : Option Text} {s : Sender} (h : Sender.parse o = .ok s) :
    ∃ t, o = some t ∧ Base64.readStrict t = .ok s.raw := by
  obtain ⟨t, bs, given, _, read, named⟩ := Sender.parse_eq_ok_iff.mp h
  rw [Sender.unmarshal_raw named]
  exact ⟨t, given, read⟩

theorem payloadOf_eq_ok_iff {o : Option Text} {bs : Bytes} :
    payloadOf o = .ok bs ↔ ∃ t, o = some t ∧ Base64.readStrict t = .ok bs := by
  cases o with
  | none => simp [payloadOf]
  | some t => simp [payloadOf, mapError_eq_ok]

theorem fingerprintOf_eq_ok_iff {o : Option Text} {r : Option Bytes} :
    fingerprintOf o = .ok r ↔ r = none ∧ (o = none ∨ o = some []) ∨
      ∃ t bs, r = some bs ∧ bs ≠ [] ∧ Base64.readStrict t = .ok bs ∧ o = some t := by
  match o with
  | none => simp [fingerprintOf, eq_comm]
  | some [] =>
    constructor
    · intro h
      cases h
      exact .inl ⟨rfl, .inr rfl⟩
    · rintro (⟨rfl, _⟩ | ⟨t, bs, _, bytes, read, eq⟩)
      · rfl
      · cases eq
        cases read
        exact absurd rfl bytes
  | some (c :: t) =>
    rw [fingerprintOf, mapError_eq_ok, map_eq_ok]
    · constructor
      · rintro ⟨bs, read, rfl⟩
        exact .inr ⟨_, bs, rfl, Base64.ne_nil_of_readStrict read (List.cons_ne_nil c t), read, rfl⟩
      · rintro (⟨_, none | empty⟩ | ⟨_, bs, rfl, _, read, eq⟩)
        · cases none
        · cases empty
        · cases eq
          exact ⟨bs, read, rfl⟩
    · simp

/-! ## What the fields describe -/

theorem exists_sender_iff {s : Sender} :
    (∃ o, textField (.object (Table.ofWrites members)) key = .ok o ∧ Sender.parse o = .ok s) ↔
      ∃ t, lastMember? members key = some (.string t) ∧ Sender.parse (some t) = .ok s ∧
        Base64.readStrict t = .ok s.raw := by
  constructor
  · rintro ⟨o, text, parsed⟩
    obtain ⟨t, rfl, read⟩ := readStrict_of_parse parsed
    obtain ⟨none, _⟩ | ⟨t', eq, last⟩ := textField_eq_ok_iff.mp text
    · cases none
    · cases eq
      exact ⟨t, last, parsed, read⟩
  · rintro ⟨t, last, parsed, _⟩
    exact ⟨some t, textField_eq_ok_iff.mpr (.inr ⟨t, rfl, last⟩), parsed⟩

theorem exists_payload_iff {bs : Bytes} :
    (∃ o, textField (.object (Table.ofWrites members)) key = .ok o ∧ payloadOf o = .ok bs) ↔
      ∃ t, lastMember? members key = some (.string t) ∧ Base64.readStrict t = .ok bs := by
  constructor
  · rintro ⟨o, text, decoded⟩
    obtain ⟨t, rfl, read⟩ := payloadOf_eq_ok_iff.mp decoded
    obtain ⟨none, _⟩ | ⟨t', eq, last⟩ := textField_eq_ok_iff.mp text
    · cases none
    · cases eq
      exact ⟨t, last, read⟩
  · rintro ⟨t, last, read⟩
    exact ⟨some t, textField_eq_ok_iff.mpr (.inr ⟨t, rfl, last⟩),
      payloadOf_eq_ok_iff.mpr ⟨t, rfl, read⟩⟩

theorem exists_fingerprint_iff {r : Option Bytes} :
    (∃ o, textField (.object (Table.ofWrites members)) key = .ok o ∧ fingerprintOf o = .ok r) ↔
      r = none ∧ (IsAbsent members key ∨ lastMember? members key = some (.string [])) ∨
        ∃ t bs, r = some bs ∧ bs ≠ [] ∧ Base64.readStrict t = .ok bs ∧
          lastMember? members key = some (.string t) := by
  constructor
  · rintro ⟨o, text, read⟩
    obtain ⟨none, empty⟩ | ⟨t, bs, eq, bytes, base64, rfl⟩ := fingerprintOf_eq_ok_iff.mp read
    · obtain ⟨_, absent⟩ | ⟨t, rfl, last⟩ := textField_eq_ok_iff.mp text
      · exact .inl ⟨none, .inl absent⟩
      · obtain rfl : t = [] := by simpa using empty
        exact .inl ⟨none, .inr last⟩
    · obtain ⟨none, _⟩ | ⟨t', eq', last⟩ := textField_eq_ok_iff.mp text
      · cases none
      · cases eq'
        exact .inr ⟨t, bs, eq, bytes, base64, last⟩
  · rintro (⟨rfl, absent | last⟩ | ⟨t, bs, rfl, bytes, base64, last⟩)
    · exact ⟨none, textField_eq_ok_iff.mpr (.inl ⟨rfl, absent⟩), rfl⟩
    · exact ⟨some [], textField_eq_ok_iff.mpr (.inr ⟨[], rfl, last⟩), rfl⟩
    · exact ⟨some t, textField_eq_ok_iff.mpr (.inr ⟨t, rfl, last⟩),
        fingerprintOf_eq_ok_iff.mpr (.inr ⟨t, bs, rfl, bytes, base64, rfl⟩)⟩

theorem exists_messageType_iff {n : Int} :
    (∃ o, intField (.object (Table.ofWrites members)) key 0 0xFFFFFFFF = .ok o ∧
      n = o.getD defaultMessageType) ↔
      n = 2 ∧ IsAbsent members key ∨
        0 ≤ n ∧ n ≤ 0xFFFFFFFF ∧ lastMember? members key = some (.int n) := by
  constructor
  · rintro ⟨o, typed, rfl⟩
    obtain ⟨rfl, absent⟩ | ⟨n, rfl, range, last⟩ := intField_eq_ok_iff.mp typed
    · exact .inl ⟨rfl, absent⟩
    · exact .inr ⟨range.1, range.2, last⟩
  · rintro (⟨rfl, absent⟩ | ⟨low, high, last⟩)
    · exact ⟨none, intField_eq_ok_iff.mpr (.inl ⟨rfl, absent⟩), rfl⟩
    · exact ⟨some n, intField_eq_ok_iff.mpr (.inr ⟨n, rfl, ⟨low, high⟩, last⟩), rfl⟩

theorem fields_iff_describes :
    Fields (.object (Table.ofWrites members)) f ↔ Describes members f := by
  have timed : intField (.object (Table.ofWrites members)) "timestampNs"
      (-0x8000000000000000) 0x7FFFFFFFFFFFFFFF = .ok f.timestampNs ↔ _ := intField_eq_ok_iff
  simp only [and_assoc] at timed
  constructor
  · intro h
    exact ⟨exists_sender_iff.mp h.sender, exists_payload_iff.mp h.payload,
      exists_fingerprint_iff.mp h.fingerprint, exists_messageType_iff.mp h.messageType,
      timed.mp h.timestampNs⟩
  · intro h
    exact ⟨exists_sender_iff.mpr h.sender, exists_payload_iff.mpr h.payload,
      exists_fingerprint_iff.mpr h.fingerprint, exists_messageType_iff.mpr h.messageType,
      timed.mpr h.timestampNs⟩

theorem Describes.isAdmissible (h : Describes members f) : IsAdmissible members := by
  obtain ⟨t, named, parsed, _⟩ := h.sender
  obtain ⟨t', carried, decoded⟩ := h.payload
  refine ⟨⟨t, _, named, parsed⟩, ⟨t', _, carried, decoded⟩, ?_, ?_, ?_⟩
  · obtain ⟨_, absent | last⟩ | ⟨t, bs, _, _, read, last⟩ := h.fingerprint
    · exact .inl absent
    · exact .inr ⟨[], last, .inl rfl⟩
    · exact .inr ⟨t, last, .inr ⟨bs, read⟩⟩
  · obtain ⟨_, absent⟩ | ⟨low, high, last⟩ := h.messageType
    · exact .inl absent
    · exact .inr ⟨_, last, low, high⟩
  · obtain ⟨_, absent⟩ | ⟨n, _, low, high, last⟩ := h.timestampNs
    · exact .inl absent
    · exact .inr ⟨n, last, low, high⟩

/-- Members that are in order describe a fragment. -/
theorem IsAdmissible.exists_describes (h : IsAdmissible members) : ∃ f, Describes members f := by
  obtain ⟨t, sender, named, parsed⟩ := h.sender
  obtain ⟨t', payload, carried, decoded⟩ := h.payload
  obtain ⟨_, eq, read⟩ := readStrict_of_parse parsed
  cases eq
  have ⟨fingerprint, given⟩ : ∃ r : Option Bytes,
      r = none ∧ (IsAbsent members "relationshipFingerprint" ∨
        lastMember? members "relationshipFingerprint" = some (.string [])) ∨
      ∃ t bs, r = some bs ∧ bs ≠ [] ∧ Base64.readStrict t = .ok bs ∧
        lastMember? members "relationshipFingerprint" = some (.string t) := by
    obtain absent | ⟨t, last, text⟩ := h.fingerprint
    · exact ⟨none, .inl ⟨rfl, .inl absent⟩⟩
    · by_cases empty : t = []
      · exact ⟨none, .inl ⟨rfl, .inr (empty ▸ last)⟩⟩
      · obtain ⟨bs, read⟩ := text.resolve_left empty
        exact ⟨some bs, .inr ⟨t, bs, rfl, Base64.ne_nil_of_readStrict read empty, read, last⟩⟩
  have ⟨messageType, typed⟩ : ∃ n : Int, n = 2 ∧ IsAbsent members "messageType" ∨
      0 ≤ n ∧ n ≤ 0xFFFFFFFF ∧ lastMember? members "messageType" = some (.int n) := by
    obtain absent | ⟨n, last, low, high⟩ := h.messageType
    · exact ⟨2, .inl ⟨rfl, absent⟩⟩
    · exact ⟨n, .inr ⟨low, high, last⟩⟩
  have ⟨timestampNs, timed⟩ : ∃ o : Option Int, o = none ∧ IsAbsent members "timestampNs" ∨
      ∃ n, o = some n ∧ -0x8000000000000000 ≤ n ∧ n ≤ 0x7FFFFFFFFFFFFFFF ∧
        lastMember? members "timestampNs" = some (.int n) := by
    obtain absent | ⟨n, last, low, high⟩ := h.timestampNs
    · exact ⟨none, .inl ⟨rfl, absent⟩⟩
    · exact ⟨some n, .inr ⟨n, rfl, low, high, last⟩⟩
  exact ⟨⟨sender, payload, fingerprint, messageType, timestampNs⟩,
    ⟨t, named, parsed, read⟩, ⟨t', carried, decoded⟩, given, typed, timed⟩

/-! ## Bodies and requests -/

theorem ofBody_of_isObjectText {body : Bytes} (h : IsObjectText .accepted body members) :
    ofBody body = ofObject (.object (Table.ofWrites members)) := by
  obtain ⟨t, scalar, bytes, spelled⟩ := h
  have text := Utf8.read_eq_ok_iff.mpr ⟨scalar, bytes⟩
  have value := Json.read_eq_ok_iff.mpr ((Json.spells_object_iff (Json.Dialect.isUsual_wide _)).mpr
    ⟨members, rfl, spelled⟩)
  simp only [ofBody, text, value]

theorem ofBody_eq_ok_iff {body : Bytes} :
    ofBody body = .ok f ↔ ∃ members, IsObjectText .accepted body members ∧ Describes members f := by
  constructor
  · intro h
    obtain ⟨t, fields, text, value, read⟩ := ofBody_eq_ok h
    obtain ⟨scalar, bytes⟩ := Utf8.read_eq_ok_iff.mp text
    obtain ⟨members, rfl, spelled⟩ := (Json.spells_object_iff (Json.Dialect.isUsual_wide _)).mp
      (Json.read_eq_ok_iff.mp value)
    exact ⟨members, ⟨t, scalar, bytes, spelled⟩, fields_iff_describes.mp read⟩
  · rintro ⟨members, object, describes⟩
    rw [ofBody_of_isObjectText object]
    exact ofObject_of_fields (fields_iff_describes.mpr describes)

/-- The members that have a say. -/
def memberNames : List Text :=
  ["senderId", "payload", "relationshipFingerprint", "messageType", "timestampNs"]

/-- Members with other keys make no difference, to a fault either. -/
theorem ofObject_congr {members' : List (Text × Json)}
    (h : ∀ key ∈ memberNames, lastMember? members key = lastMember? members' key) :
    ofObject (.object (Table.ofWrites members)) = ofObject (.object (Table.ofWrites members')) := by
  simp only [memberNames, List.forall_mem_cons] at h
  obtain ⟨sender, payload, fingerprint, messageType, timestampNs, _⟩ := h
  simp only [ofObject, textField, intField, fieldOrNull_ofWrites, sender, payload, fingerprint,
    messageType, timestampNs]

section

variable {body : Bytes}

theorem exists_ofBody_iff : (∃ f, ofBody body = .ok f) ↔
    ∃ members, IsObjectText .accepted body members ∧ IsAdmissible members := by
  constructor
  · rintro ⟨f, h⟩
    obtain ⟨members, object, describes⟩ := ofBody_eq_ok_iff.mp h
    exact ⟨members, object, describes.isAdmissible⟩
  · rintro ⟨members, object, admissible⟩
    obtain ⟨f, describes⟩ := admissible.exists_describes
    exact ⟨f, ofBody_eq_ok_iff.mpr ⟨members, object, describes⟩⟩

theorem exists_fault
    (h : ¬ ∃ members, IsObjectText .accepted body members ∧ IsAdmissible members) :
    ∃ e, ofBody body = .error e ∧ e ≠ .method ∧ e.status = 400 := by
  cases result : ofBody body with
  | ok f => exact absurd (exists_ofBody_iff.mp ⟨f, result⟩) h
  | error e =>
    have status := status_of_ofBody result
    refine ⟨e, rfl, ?_, status⟩
    rintro rfl
    exact absurd status (by decide)

theorem describes_of_ofBody (h : ofBody body = .ok f)
    (object : IsObjectText .accepted body members) : Describes members f := by
  rw [ofBody_of_isObjectText object] at h
  exact fields_iff_describes.mp (ofObject_eq_ok h)

theorem fingerprint_ne_of_ofBody (h : ofBody body = .ok f) : f.fingerprint ≠ some [] := by
  obtain ⟨_, _, describes⟩ := ofBody_eq_ok_iff.mp h
  obtain ⟨none, _⟩ | ⟨_, bs, eq, bytes, _⟩ := describes.fingerprint
  · rw [none]
    exact nofun
  · rw [eq]
    exact fun empty => bytes (Option.some.inj empty)

end

/-- A request is refused for its method if and only if that is not `POST`. Any other one gives a
fragment if and only if its body is the text of an object whose members are in order, and is refused
with the status 400 otherwise; the fragment is what the members describe, and no other members have
a say. -/
theorem ofRequest_decides (method : Text) (body : Bytes) :
    (ofRequest method body = .error .method ↔ method.upper ≠ ("POST" : Text)) ∧
    (method.upper = ("POST" : Text) →
      ((∃ f, ofRequest method body = .ok f) ↔
        ∃ members, IsObjectText .accepted body members ∧ IsAdmissible members) ∧
      ((¬ ∃ members, IsObjectText .accepted body members ∧ IsAdmissible members) →
        ∃ e, ofRequest method body = .error e ∧ e ≠ .method ∧ e.status = 400)) ∧
    (∀ f, ofRequest method body = .ok f →
      (∀ members, IsObjectText .accepted body members → Describes members f) ∧
      f.fingerprint ≠ some [] ∧ f.sender.raw.length = 33 ∧ f.sender.kindCode ≤ 3) ∧
    (∀ body' members members', IsObjectText .accepted body members →
      IsObjectText .accepted body' members' →
      (∀ key ∈ memberNames, lastMember? members key = lastMember? members' key) →
      ofRequest method body = ofRequest method body') := by
  by_cases post : method.upper = ("POST" : Text)
  · rw [ofRequest, if_neg fun differ => differ post]
    refine ⟨⟨fun h => absurd (status_of_ofBody h) (by decide), fun differ => absurd post differ⟩,
      fun _ => ⟨exists_ofBody_iff, exists_fault⟩, fun f h => ?_,
      fun body' _ _ object object' same => ?_⟩
    · have valid := isValid_of_ofBody h
      exact ⟨fun _ object => describes_of_ofBody h object, fingerprint_ne_of_ofBody h,
        valid.length_raw, valid.kindCode_le⟩
    · rw [ofRequest, if_neg fun differ => differ post, ofBody_of_isObjectText object,
        ofBody_of_isObjectText object', ofObject_congr same]
  · rw [ofRequest, if_pos post]
    refine ⟨⟨fun _ => post, fun _ => rfl⟩, fun equal => absurd equal post, nofun,
      fun body' _ _ _ _ _ => ?_⟩
    rw [ofRequest, if_pos post]

/-! ## Bodies that are written -/

/-- The body of a request whose object has these fields. -/
def bodyOf (fields : List (Text × Json)) : Bytes := Utf8.write (Json.object fields).render

theorem isObjectText_bodyOf {d : Json.Dialect} {fields : List (Text × Json)} (usual : d.IsUsual)
    (plain : (Json.object fields).IsPlain) (takes : d.Takes (Json.fieldsWritable fields)) :
    IsObjectText d (bodyOf fields) fields :=
  ⟨_, (Json.isPrintableAscii_render _ plain.isReadable).isAscii.isScalar, rfl,
    Json.spells_object_render usual plain.2 takes⟩

/-- The least fields of a request, and one field that has no say. -/
def fieldsWith (extra : Json) : List (Text × Json) :=
  [("senderId", .string "AAECAwQFBgcICQoLDA0ODxAREhMUFRYXGBkaGxwdHh8D"), ("payload", .string ""),
   ("x", extra)]

theorem isAdmissible_fieldsWith (extra : Json) : IsAdmissible (fieldsWith extra) where
  sender := ⟨_, _, rfl, rfl⟩
  payload := ⟨_, _, rfl, rfl⟩
  fingerprint := .inl (.inl rfl)
  messageType := .inl (.inl rfl)
  timestampNs := .inl (.inl rfl)

theorem isPlain_fieldsWith {extra : Json} (plain : extra.IsPlain) :
    (Json.object (fieldsWith extra)).IsPlain := by
  have keys : (Text.ofString "senderId").IsScalar ∧ (Text.ofString "payload").IsScalar ∧
      (Text.ofString "x").IsScalar := by
    refine ⟨?_, ?_, ?_⟩ <;> (rw [Text.IsScalar]; decide)
  have values : (Text.ofString "AAECAwQFBgcICQoLDA0ODxAREhMUFRYXGBkaGxwdHh8D").IsScalar ∧
      (Text.ofString "").IsScalar := by
    refine ⟨?_, ?_⟩ <;> (rw [Text.IsScalar]; decide)
  have distinct : ([Text.ofString "senderId", "payload", "x"] : List Text).Nodup := by decide
  exact ⟨distinct, keys.1, values.1, keys.2.1, values.2, keys.2.2, plain, trivial⟩

theorem lastMember?_fieldsWith (extra other : Json) :
    ∀ key ∈ memberNames,
      lastMember? (fieldsWith extra) key = lastMember? (fieldsWith other) key := by
  simp only [memberNames, List.forall_mem_cons]
  exact ⟨rfl, rfl, rfl, rfl, rfl, List.forall_mem_nil _⟩

theorem not_isObjectText_nil {d : Json.Dialect} : ¬ IsObjectText d [] members := by
  rintro ⟨t, scalar, bytes, levels, rest, derived, _⟩
  obtain rfl : [] = t := Except.ok.inj (Utf8.read_eq_ok_iff.mpr ⟨scalar, bytes⟩)
  exact absurd derived.length_lt (Nat.not_lt_zero _)

theorem ofRequest_decides_post :
    (∃ f, ofRequest "post" (bodyOf (fieldsWith .null)) = .ok f ∧ Describes (fieldsWith .null) f) ∧
    ofRequest "post" (bodyOf (fieldsWith .null)) =
      ofRequest "post" (bodyOf (fieldsWith (.bool true))) ∧
    ∃ e, ofRequest "post" [] = .error e ∧ e ≠ .method ∧ e.status = 400 := by
  have post : Text.upper "post" = ("POST" : Text) := by decide
  have object {extra : Json} (plain : extra.IsPlain) (writable : extra.isWritable = true) :
      IsObjectText .accepted (bodyOf (fieldsWith extra)) (fieldsWith extra) := by
    refine isObjectText_bodyOf (Json.Dialect.isUsual_wide _) (isPlain_fieldsWith plain)
      (.inr ⟨rfl, ?_⟩)
    simp [fieldsWith, Json.fieldsWritable, Json.isWritable, writable]
  have null : IsObjectText .accepted (bodyOf (fieldsWith .null)) (fieldsWith .null) :=
    object trivial rfl
  obtain ⟨_, decides, given, alike⟩ := ofRequest_decides "post" (bodyOf (fieldsWith .null))
  obtain ⟨f, accepted⟩ := (decides post).1.mpr ⟨_, null, isAdmissible_fieldsWith _⟩
  refine ⟨⟨f, accepted, (given f accepted).1 _ null⟩, ?_, ?_⟩
  · exact alike _ _ _ null (object trivial rfl) (lastMember?_fieldsWith _ _)
  · exact ((ofRequest_decides "post" []).2.1 post).2 fun ⟨_, text, _⟩ => not_isObjectText_nil text

/-! ## Standard JSON -/

/-- A body spells one object, in whichever dialect. -/
theorem IsObjectText.ofWrites_unique {d d' : Json.Dialect} {body : Bytes}
    {members' : List (Text × Json)} (h : IsObjectText d body members)
    (h' : IsObjectText d' body members') (usual : d.IsUsual) (usual' : d'.IsUsual) :
    Table.ofWrites members = Table.ofWrites members' := by
  obtain ⟨t, scalar, bytes, spelled⟩ := h
  obtain ⟨t', scalar', bytes', spelled'⟩ := h'
  obtain rfl := Utf8.write_inj scalar scalar' (bytes.trans bytes'.symm)
  have value := (Json.spells_object_iff usual).mpr ⟨members, rfl, spelled⟩
  have value' := (Json.spells_object_iff usual').mpr ⟨members', rfl, spelled'⟩
  exact Json.object.inj (value.value_unique value' usual usual')

/-- A field that has no say is refused all the same where it is an integer of too many digits. -/
theorem not_ofBody_of_unwritable {n : Int} (h : Integer.isWritable n = false) :
    ¬ ∃ f, ofBody (bodyOf (fieldsWith (.int n))) = .ok f := by
  rintro ⟨f, read⟩
  obtain ⟨members, object, _⟩ := ofBody_eq_ok_iff.mp read
  have plain : (Json.int n).IsPlain := trivial
  have standard := isObjectText_bodyOf Json.Dialect.isUsual_standard (isPlain_fieldsWith plain)
    (.inl rfl)
  have same := object.ofWrites_unique standard (Json.Dialect.isUsual_wide _)
    Json.Dialect.isUsual_standard
  have found : (Json.object (Table.ofWrites members)).field? "x" = some (.int n) := by
    rw [same, Json.field?, Table.get?_ofWrites]
    rfl
  obtain ⟨t, _, _, spelled⟩ := object
  have measured := Json.isMeasured_of_read (Json.read_eq_ok_iff.mpr
    ((Json.spells_object_iff (Json.Dialect.isUsual_wide _)).mpr ⟨members, rfl, spelled⟩))
  cases measured.of_field? found with
  | int writable => exact absurd (writable.symm.trans h) (by decide)

/-- A member is no value behind its colon if it does not start like one. -/
theorem not_derives_member {d : Json.Dialect} {levels : Nat} {name t rest : Text} {c : CodePoint}
    {value : Json}
    (blank : Json.isBlank c = false) (other : ¬ Json.Starts d.words c) :
    ¬ Json.Derives d levels (Json.renderString name ++ (Text.ofString ": " ++ c :: t))
      (.member key value) rest := by
  rw [Json.renderString, List.cons_append, List.cons_append, List.append_assoc]
  intro derived
  cases derived with
  | member token colon h =>
    obtain ⟨_, rfl⟩ := token.unique (Json.isString_render name _)
    have behind : Json.skipBlanks (Text.ofString ": " ++ c :: t) =
        CodePoint.ofChar ':' :: CodePoint.ofChar ' ' :: c :: t :=
      Json.skipBlanks_cons (by decide) _
    cases behind.symm.trans colon
    rw [Json.skipBlanks_space, Json.skipBlanks_cons blank] at h
    obtain ⟨_, _, eq, start⟩ := h.starts
    cases eq
    exact other start

/-- No object starts with such a member. -/
theorem not_spells_object {d : Json.Dialect} {name t : Text} {c : CodePoint}
    (blank : Json.isBlank c = false) (other : ¬ Json.Starts d.words c) :
    ¬ Json.Spells d (CodePoint.ofChar '{' :: (Json.renderString name ++
      (Text.ofString ": " ++ c :: t))) (.object members) := by
  have quote : Json.skipBlanks (Json.renderString name ++ (Text.ofString ": " ++ c :: t)) =
      Json.renderString name ++ (Text.ofString ": " ++ c :: t) :=
    Json.skipBlanks_cons (by decide) _
  rintro ⟨levels, rest, derived, _⟩
  rw [Json.skipBlanks_cons (by decide)] at derived
  cases derived with
  | emptyObject close =>
    rw [quote, Json.renderString] at close
    cases close
  | object h =>
    rw [quote] at h
    cases h with
    | lastMember first _ => exact not_derives_member blank other first
    | memberAnd first _ _ => exact not_derives_member blank other first

/-- The fields with a number that is none before them. -/
def fieldsAfterNaN : List (Text × Json) := ("x", .float .nan) :: fieldsWith .null

theorem not_isObjectText_nan : ¬ IsObjectText .standard (bodyOf fieldsAfterNaN) members := by
  have scalar : (Json.object fieldsAfterNaN).render.IsScalar := by
    rw [Text.IsScalar]
    decide
  rintro ⟨t, scalar', bytes, spelled⟩
  have blank : Json.isBlank (CodePoint.ofChar 'N') = false := by decide
  have other : ¬ Json.Starts Json.Dialect.standard.words (CodePoint.ofChar 'N') := by decide
  have front : (Json.object fieldsAfterNaN).render = CodePoint.ofChar '{' ::
      (Json.renderString "x" ++ (Text.ofString ": " ++ CodePoint.ofChar 'N' ::
        (Text.ofString "aN" ++
          (Json.renderFields (fieldsWith .null) ++ [CodePoint.ofChar '}'])))) := rfl
  rw [Utf8.write_inj scalar' scalar bytes, front] at spelled
  exact not_spells_object blank other spelled

/-- Standard JSON decides otherwise in two ways: it takes a long integer in a field that has no say,
which is refused, and does not take a number that is none, which is passed over. -/
theorem standard_decides_otherwise :
    ((∃ members, IsObjectText .standard (bodyOf (fieldsWith (.int Integer.unwritable))) members ∧
        IsAdmissible members) ∧
      ¬ ∃ f, ofRequest "POST" (bodyOf (fieldsWith (.int Integer.unwritable))) = .ok f) ∧
    (¬ ∃ members, IsObjectText .standard (bodyOf fieldsAfterNaN) members) ∧
      ∃ f, ofRequest "POST" (bodyOf fieldsAfterNaN) = .ok f := by
  have post (body : Bytes) : ofRequest "POST" body = ofBody body := if_neg (by decide)
  have plain : (Json.int Integer.unwritable).IsPlain := trivial
  refine ⟨⟨⟨_, isObjectText_bodyOf Json.Dialect.isUsual_standard (isPlain_fieldsWith plain)
    (.inl rfl), isAdmissible_fieldsWith _⟩, ?_⟩, not_exists.mpr fun _ => not_isObjectText_nan, ?_⟩
  · rw [post]
    exact not_ofBody_of_unwritable Integer.isWritable_unwritable
  · rw [post]
    have taken : (ofBody (bodyOf fieldsAfterNaN)).toOption.isSome = true := by decide +kernel
    obtain ⟨f, some⟩ := Option.isSome_iff_exists.mp taken
    exact ⟨f, toOption_eq_some.mp some⟩

end Fragment

end PartRelay
