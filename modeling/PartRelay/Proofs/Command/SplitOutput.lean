import PartRelay.Command.Split
import PartRelay.Proofs.Bytes.Base64Text
import PartRelay.Proofs.Files.Directory
import PartRelay.Proofs.Fragment
import PartRelay.Proofs.Json.ReadBack
import PartRelay.Proofs.Part.SplitParts
import PartRelay.Proofs.Text.Utf8

/-!
# What a split puts out

A split that succeeds leaves a line for each part, on the output or in the file that was named. Each
line is the body of a request, and what is read from it is the part with its sender and its
fingerprint.
-/

namespace PartRelay

/-! ## Lines -/

namespace Bytes

def lineFeed : UInt8 := 0x0A

/-- The lines of a file without the line feeds that end them. -/
def lines (bs : Bytes) : List Bytes := (bs.splitOn lineFeed).dropLast

theorem splitOn_flatMap {ls : List Bytes} (plain : ∀ l ∈ ls, lineFeed ∉ l) :
    (ls.flatMap (· ++ [lineFeed])).splitOn lineFeed = ls ++ [[]] := by
  induction ls with
  | nil => rfl
  | cons l ls ih =>
    have rest := ih fun l' hl => plain l' (List.mem_cons_of_mem _ hl)
    have none : ∀ b ∈ l, (b == lineFeed) = false := by
      intro b hb
      rw [beq_eq_false_iff_ne]
      rintro rfl
      exact plain l List.mem_cons_self hb
    rw [List.splitOn] at rest ⊢
    rw [List.flatMap_cons, List.append_assoc, List.singleton_append,
      List.splitOnP_append_cons_of_forall_mem none _ (beq_self_eq_true _), rest, List.cons_append]

/-- Lines that have been ended are told apart again. -/
theorem lines_flatMap {ls : List Bytes} (plain : ∀ l ∈ ls, lineFeed ∉ l) :
    lines (ls.flatMap (· ++ [lineFeed])) = ls := by
  rw [lines, splitOn_flatMap plain, List.dropLast_concat]

end Bytes

theorem Text.intercalate_append (sep : Text) {ts : List Text} (h : ts ≠ []) :
    Text.intercalate sep ts ++ sep = ts.flatMap (· ++ sep) := by
  induction ts with
  | nil => exact absurd rfl h
  | cons t ts ih =>
    cases ts with
    | nil => simp [intercalate]
    | cons next ts =>
      have rest := ih (List.cons_ne_nil _ _)
      rw [intercalate] at rest ⊢
      rw [List.intersperse_cons_cons, List.flatMap_cons, ← rest]
      simp

theorem Utf8.write_append (s t : Text) : write (s ++ t) = write s ++ write t := by
  simp [write]

/-- There is no line feed in printable text. -/
theorem Utf8.lineFeed_not_mem_write {t : Text} (h : t.IsPrintableAscii) :
    Bytes.lineFeed ∉ write t := by
  intro feed
  obtain ⟨c, hc, among⟩ := List.mem_flatMap.mp feed
  have printable := h c hc
  rw [writePoint_of_isAscii (h.isAscii c hc), List.mem_singleton] at among
  have number := congrArg UInt8.toNat among
  rw [UInt8.toNat_ofNat_of_lt' (Nat.lt_of_le_of_lt printable.2 (by decide))] at number
  have ten : Bytes.lineFeed.toNat = 10 := rfl
  omega

/-! ## Texts that are accepted -/

theorem Sender.isAscii_of_parse {t : Text} {s : Sender} (h : Sender.parse (some t) = .ok s) :
    t.IsAscii := by
  obtain ⟨_, _, ⟨⟩, _, read, _⟩ := parse_eq_ok_iff.mp h
  exact Base64.isAscii_of_readStrict read

theorem Fragment.isAscii_of_fingerprintOf {t : Text} {fingerprint : Option Bytes}
    (h : fingerprintOf (some t) = .ok fingerprint) : t.IsAscii := by
  unfold fingerprintOf at h
  split at h
  next none => cases none
  next same =>
    cases same
    intro c hc
    cases hc
  next same =>
    cases same
    obtain ⟨bs, read, _⟩ := map_eq_ok.mp (mapError_eq_ok.mp h)
    exact Base64.isAscii_of_readStrict read

namespace Command

/-! ## Bodies -/

/-- The field of a fingerprint; empty text has none. -/
def fingerprintField : Option Text → List (Text × Json)
  | none | some [] => []
  | some t => [("relationshipFingerprint", .string t)]

theorem partBody_eq (sender : Text) (fingerprint : Option Text) (part : Bytes) :
    partBody sender fingerprint part = .object
      (("senderId", .string sender) :: ("payload", .string (Base64.write part)) ::
        fingerprintField fingerprint) := by
  match fingerprint with
  | none => rfl
  | some [] => rfl
  | some (c :: t) => rfl

theorem length_fingerprintField_le (fingerprint : Option Text) :
    (Json.renderFields (fingerprintField fingerprint)).length
      ≤ 12 * (fingerprint.getD []).length + 31 := by
  match fingerprint with
  | none => decide
  | some [] => decide
  | some (c :: t) =>
    have value := Json.length_renderString_le (c :: t)
    have key : (Json.renderString "relationshipFingerprint").length = 25 := by decide
    have marks : (Text.ofString ": ").length = 2 ∧ (Text.ofString ", ").length = 2 := by decide
    simp only [fingerprintField, Json.render, Json.renderFields, List.length_append, key, marks,
      List.length_nil, Option.getD_some]
    omega

theorem isWritable_partBody (sender : Text) (fingerprint : Option Text) (part : Bytes) :
    (partBody sender fingerprint part).isWritable = true := by
  match fingerprint with
  | none => rfl
  | some [] => rfl
  | some (c :: t) => rfl

/-- The keys of a body; the last one only where there is a fingerprint. -/
theorem bodyKeys_isScalar : (Text.ofString "senderId").IsScalar ∧
    (Text.ofString "payload").IsScalar ∧ (Text.ofString "relationshipFingerprint").IsScalar := by
  refine ⟨?_, ?_, ?_⟩ <;> (rw [Text.IsScalar]; decide)

section Body

variable {senderText : Text} {fingerprintText : Option Text} {sender : Sender}
  {fingerprint : Option Bytes} (named : Sender.parse (some senderText) = .ok sender)
  (given : Fragment.fingerprintOf fingerprintText = .ok fingerprint) (part : Bytes)

include named given

theorem isPlain_partBody : (partBody senderText fingerprintText part).IsPlain := by
  have senderPlain := (Sender.isAscii_of_parse named).isScalar
  obtain ⟨senderKey, payloadKey, fingerprintKey⟩ := bodyKeys_isScalar
  have payloadPlain := Base64.isScalar_write part
  have two : ([Text.ofString "senderId", "payload"] : List Text).Nodup := by decide
  have three :
      ([Text.ofString "senderId", "payload", "relationshipFingerprint"] : List Text).Nodup := by
    decide
  rw [partBody_eq]
  match fingerprintText with
  | none => exact ⟨two, senderKey, senderPlain, payloadKey, payloadPlain, trivial⟩
  | some [] => exact ⟨two, senderKey, senderPlain, payloadKey, payloadPlain, trivial⟩
  | some (c :: t) =>
    have fingerprintPlain := (Fragment.isAscii_of_fingerprintOf given).isScalar
    exact ⟨three, senderKey, senderPlain, payloadKey, payloadPlain, fingerprintKey,
      fingerprintPlain, trivial⟩

/-- The fields of a body are those of the part that it submits. No type is asked for. -/
theorem fields_partBody : Fragment.Fields (partBody senderText fingerprintText part)
    { sender, payload := part, fingerprint } := by
  have carried : Fragment.payloadOf (some (Base64.write part)) = .ok part := by
    rw [Fragment.payloadOf, Base64.readStrict_write]
    rfl
  rw [partBody_eq]
  match fingerprintText with
  | none =>
    exact ⟨⟨_, rfl, named⟩, ⟨_, rfl, carried⟩, ⟨none, rfl, given⟩, ⟨none, rfl, rfl⟩, rfl⟩
  | some [] =>
    exact ⟨⟨_, rfl, named⟩, ⟨_, rfl, carried⟩, ⟨none, rfl, given⟩, ⟨none, rfl, rfl⟩, rfl⟩
  | some (c :: t) =>
    exact ⟨⟨_, rfl, named⟩, ⟨_, rfl, carried⟩, ⟨_, rfl, given⟩, ⟨none, rfl, rfl⟩, rfl⟩

/-- A body is not much longer than the texts in it. -/
theorem length_partBody_le :
    (Utf8.write (partBody senderText fingerprintText part).render).length
      ≤ 12 * (senderText.length + (Base64.write part).length
        + (fingerprintText.getD []).length) + 100 := by
  have printable :=
    Json.isPrintableAscii_render _ (isPlain_partBody named given part).isReadable
  have name := Json.length_renderString_le senderText
  have payload := Json.length_renderString_le (Base64.write part)
  have last := length_fingerprintField_le fingerprintText
  have keys : (Json.renderString "senderId").length = 10 ∧
      (Json.renderString "payload").length = 9 := by decide
  have marks : (Text.ofString ": ").length = 2 ∧ (Text.ofString ", ").length = 2 := by decide
  rw [Utf8.length_write_of_isAscii printable.isAscii, partBody_eq]
  simp only [Json.render, Json.renderFields, List.length_append, List.length_cons, List.length_nil,
    keys, marks]
  omega

/-- What is read from a line is the part that it was made for. -/
theorem ofBody_partBody :
    Fragment.ofBody (Utf8.write (partBody senderText fingerprintText part).render)
      = .ok { sender, payload := part, fingerprint } := by
  have plain := isPlain_partBody named given part
  have printable := Json.isPrintableAscii_render _ plain.isReadable
  have fields := fields_partBody named given part
  have read := Json.read_render plain (isWritable_partBody ..)
  rw [Fragment.ofBody, Utf8.read_write_of_isAscii printable.isAscii]
  rw [partBody_eq] at read fields ⊢
  simp only [read]
  exact Fragment.ofObject_of_fields fields

end Body

/-! ## The output -/

/-- What a command leaves in the file that was named, or prints where none was. -/
def Outcome.written (o : Outcome) (path : Option Text) : Except Directory.Error Bytes :=
  match path with
  | none | some [] => .ok (Utf8.write o.output)
  | some path => o.directory.read (.ofText path)

theorem written_deliver {d : Directory} {path : Option Text} {t : Text}
    (ended : (deliver d path t).ending = .exit 0) :
    (deliver d path t).written path = .ok (Utf8.write t) := by
  unfold deliver at ended ⊢
  match path with
  | none => rfl
  | some [] => rfl
  | some (c :: path) =>
    dsimp only at ended ⊢
    cases result : d.write (.ofText (c :: path)) (Utf8.write t) with
    | error e =>
      rw [result] at ended
      cases ended
    | ok written => exact Directory.read_write result

theorem write_bodyLines (a : SplitArguments) {parts : List Bytes} (nonempty : parts ≠ []) :
    Utf8.write (bodyLines a parts)
      = (parts.map fun part => Utf8.write (partBody a.sender a.fingerprint part).render).flatMap
        (· ++ [Bytes.lineFeed]) := by
  have feed : Utf8.write "\n" = [Bytes.lineFeed] := rfl
  rw [bodyLines, Text.intercalate_append _ (by simpa using nonempty)]
  clear nonempty
  induction parts with
  | nil => rfl
  | cons part parts ih =>
    rw [List.map_cons, List.map_cons, List.flatMap_cons, List.flatMap_cons, Utf8.write_append,
      Utf8.write_append, feed, ih]

end Command

open Command

/-- What a split is given: the size of a part, the sender, the fingerprint, and what is in the
file. -/
structure SplitArguments.Gives (a : SplitArguments) (d : Directory) (size : Int) (sender : Sender)
    (fingerprint : Option Bytes) (content : Bytes) : Prop where
  size : sizeOfParts d a.networkPath = .ok size
  sender : Sender.parse (some a.sender) = .ok sender
  fingerprint : Fragment.fingerprintOf a.fingerprint = .ok fingerprint
  content : ∃ path, a.input = some path ∧ d.read (.ofText path) = .ok content

namespace SplitArguments.Gives

variable {a : SplitArguments} {d : Directory} {size : Int} {sender : Sender}
  {fingerprint : Option Bytes} {content : Bytes} {machine : Machine}

theorem runSplit_eq (h : a.Gives d size sender fingerprint content) :
    runSplit machine d a = splitPayload machine d a size content := by
  obtain ⟨path, named, read⟩ := h.content
  simp only [runSplit, h.size, h.sender, named, read]

/-- A split that succeeds has cut the file into parts and delivered a line for each. -/
theorem delivered (h : a.Gives d size sender fingerprint content)
    (ended : (runSplit machine d a).ending = .exit 0) : ∃ type timestampNs parts,
      Part.split machine.memory content size (a.messageId.getD noField) type timestampNs
        = .ok parts ∧
      runSplit machine d a = deliver d a.output (bodyLines a parts) := by
  rw [h.runSplit_eq, splitPayload] at ended ⊢
  split at ended
  · split at ended
    · cases ended
    · cases ended
  · cases ended
  next parts made => exact ⟨_, _, parts, made, rfl⟩

/-- The lines of a split are the bodies that submit its parts. -/
theorem lines_written (h : a.Gives d size sender fingerprint content)
    (ended : (runSplit machine d a).ending = .exit 0) : ∃ type timestampNs parts output,
      Part.split machine.memory content size (a.messageId.getD noField) type timestampNs
        = .ok parts ∧
      (runSplit machine d a).written a.output = .ok output ∧
      output.lines = parts.map fun part =>
        Utf8.write (partBody a.sender a.fingerprint part).render := by
  obtain ⟨type, timestampNs, parts, made, delivered⟩ := h.delivered ended
  obtain ⟨pieces, cut⟩ := Part.split_eq_ok made
  rw [delivered] at ended ⊢
  refine ⟨type, timestampNs, parts, _, made, written_deliver ended, ?_⟩
  rw [write_bodyLines a (List.ne_nil_of_length_pos cut.length_pos)]
  refine Bytes.lines_flatMap fun line hl => ?_
  obtain ⟨part, _, rfl⟩ := List.mem_map.mp hl
  exact Utf8.lineFeed_not_mem_write
    (Json.isPrintableAscii_render _ (isPlain_partBody h.sender h.fingerprint part).isReadable)

end SplitArguments.Gives

end PartRelay
