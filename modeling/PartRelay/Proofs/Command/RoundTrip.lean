import Mathlib.Data.List.Forall2
import PartRelay.Proofs.Command.SplitFaults
import PartRelay.Proofs.Command.SplitOutput
import PartRelay.Proofs.Http.Headers
import PartRelay.Proofs.Http.Posting
import PartRelay.Proofs.SenderText

/-!
# From a file to its message

The lines that a split puts out are posted to a server of the same part size, one with each request
and in whatever order. Every one of them is accepted, and the last gives back what was in the file.
-/

namespace PartRelay

open Command (desktop length_partBody_le noField ofBody_partBody runSplit splitPayload)
open Reassembly (Transfer)

namespace Http

variable {server : Server} {activities : List Activity} {bodies : List Bytes} {w : World}

/-! ## Posted bodies -/

/-- Requests that bring bodies submit what is read from these. -/
theorem submitted_of_takes (taken : List.Forall₂ server.Takes (requests activities) bodies) :
    server.submitted activities
      = bodies.filterMap fun body => (Fragment.ofBody body).toOption := by
  rw [Server.submitted]
  generalize requests activities = queue at taken ⊢
  induction taken with
  | nil => rfl
  | cons takes _ ih =>
    rw [List.filterMap_cons, List.filterMap_cons, ih, submission?_of_asks takes.asks takes.granted,
      takes.whole]

theorem submits_of_takes (taken : List.Forall₂ server.Takes (requests activities) bodies)
    (read : ∀ body ∈ bodies, ∃ f, Fragment.ofBody body = .ok f) :
    ∀ q ∈ requests activities, ∃ f, server.Submits q f := by
  generalize requests activities = queue at taken ⊢
  induction taken with
  | nil =>
    intro q hq
    cases hq
  | cons takes _ ih =>
    intro q hq
    rcases List.mem_cons.mp hq with rfl | later
    · obtain ⟨f, given⟩ := read _ List.mem_cons_self
      exact ⟨f, _, takes.asks, takes.granted, takes.whole.symm ▸ given⟩
    · exact ih (fun body hb => read body (List.mem_cons_of_mem _ hb)) q later

/-- The fragment of a part that is submitted without overrides. -/
def fragmentOf (sender : Sender) (fingerprint : Option Bytes) (part : Bytes) : Fragment :=
  { sender, payload := part, fingerprint }

/-- What is posted when bodies come from the parts of a transfer. -/
theorem submitted_perm {sender : Sender} {fingerprint : Option Bytes} {lines parts : List Bytes}
    {body : Bytes → Bytes} (made : lines = parts.map body)
    (read : ∀ part, Fragment.ofBody (body part) = .ok (fragmentOf sender fingerprint part))
    (taken : List.Forall₂ server.Takes (requests activities) bodies)
    (order : bodies.Perm lines) :
    (server.submitted activities).Perm (parts.map (fragmentOf sender fingerprint)) := by
  rw [submitted_of_takes taken]
  have all : lines.filterMap (fun body => (Fragment.ofBody body).toOption)
      = parts.map (fragmentOf sender fingerprint) := by
    rw [made, List.filterMap_map, ← List.filterMap_eq_map]
    congr 1
    funext part
    simp only [Function.comp, read]
    rfl
  exact all ▸ order.filterMap _

/-! ## Receipts -/

/-- What is answered as long as lines are missing. -/
def awaitingJson (size : Int) : Json :=
  .object
    [("accepted", .bool true), ("completed", .bool false), ("messageType", .int 2),
     ("bytes", .int size)]

/-- What is answered to the last line: the contents of the file, and a word on them. -/
def assembledJson (size : Int) (sender : Sender) (content : Bytes) : Json :=
  .object
    [("accepted", .bool true), ("completed", .bool true), ("messageType", .int 2),
     ("bytes", .int size), ("completedPayload", .string (Base64.write content)),
     ("info", .string (Text.join
       ["assembled ", Text.ofNat content.length, " bytes from sender ",
        Base64.write sender.raw]))]

theorem toJson_waiting (f : Fragment) (type : f.messageType = defaultMessageType) :
    (Intake.waiting f).toJson = awaitingJson f.payload.length := by
  rw [Intake.waiting, type]
  rfl

theorem toJson_completing (f : Fragment) (m : Reassembly.Message)
    (type : f.messageType = defaultMessageType) :
    (Intake.completing f m).toJson = assembledJson f.payload.length m.sender m.payload := by
  have chosen : f.messageType ≠ noMessageType := by
    rw [type]
    decide
  rw [Intake.completing, if_pos chosen, type]
  rfl

/-- The receipts for fragments of one size that ask for no type. -/
theorem Posting.receipts_alike {m : Transfer} {size : Int} {fs : List Fragment} (nonempty : fs ≠ [])
    (alike : ∀ f ∈ fs, f.messageType = defaultMessageType ∧ (f.payload.length : Int) = size) :
    (Posting.receipts m fs).map Intake.Receipt.toJson
      = List.replicate (fs.length - 1) (awaitingJson size) ++
        [assembledJson size m.message.sender m.message.payload] := by
  induction fs with
  | nil => exact absurd rfl nonempty
  | cons f fs ih =>
    obtain ⟨type, length⟩ := alike f List.mem_cons_self
    cases fs with
    | nil =>
      rw [Posting.receipts, List.map_singleton, toJson_completing f _ type, length]
      rfl
    | cons g fs =>
      have rest := ih (List.cons_ne_nil _ _) fun f' hf => alike f' (List.mem_cons_of_mem _ hf)
      rw [Posting.receipts, List.map_cons, rest, toJson_waiting f type, length]
      rfl

end Http

/-! ## Files that come back -/

open Http

variable {machine : Command.Machine} {memory : Memory} {d : Directory} {a : SplitArguments}
  {server : Server} {sender : Sender} {fingerprint : Option Bytes} {content : Bytes} {key : Text}

/-- The transfer that a split begins. -/
def Reassembly.Transfer.ofSplit {size messageId type timestampNs : Int} {fingerprint : Bytes}
    {parts : List Bytes}
    (made : Part.split memory content size messageId type timestampNs = .ok parts)
    (derived : Reassembly.conversationKey sender fingerprint messageId = .ok key) : Transfer where
  memory
  message :=
    { sender, payload := content, messageType := type, timestampNs, messageId, fingerprint }
  size
  parts
  split := made
  key
  derived

section Posted

variable {w : World} {activities : List Activity} {messageId type timestampNs : Int}
  {parts : List Bytes}
  (made : Part.split memory content server.reassembler.maxFragmentSize messageId type timestampNs
    = .ok parts)
  (derived : Reassembly.conversationKey sender (fingerprint.getD []) messageId = .ok key)

/-- The parts of a split, each submitted once, are a transfer posted part by part. -/
theorem posting_of_submitted
    (submitted : (server.submitted activities).Perm (parts.map (fragmentOf sender fingerprint)))
    (submits : ∀ q ∈ requests activities, ∃ f, server.Submits q f)
    (lacks : server.reassembler.Lacks w.state.buffers key)
    (began : Integer.isWritable w.now = true)
    (written : Integer.isWritable (server.run w activities).now = true)
    (timely : (server.run w activities).now < w.now + server.reassembler.ttlMs) :
    Posting server (.ofSplit made derived) w activities where
  fits := Int.le_refl _
  size := by
    obtain ⟨positive, bound⟩ := Part.size_le_of_split made
    exact Integer.isWritable_of_lt (Int.le_of_lt positive)
      (Int.lt_of_le_of_lt bound (Int.lt_trans memory.size_lt (by decide)))
  lacks
  submits
  owned := by
    intro f hf
    obtain ⟨part, _, rfl⟩ := List.mem_map.mp (submitted.mem_iff.mp hf)
    exact ⟨rfl, rfl⟩
  each := by
    have payloads := submitted.map Fragment.payload
    rw [List.map_map] at payloads
    exact payloads.trans (.of_eq (List.map_id parts))
  began
  written
  timely

/-- The responses to the parts of a split, whatever their order. -/
theorem responses_of_submitted (posting : Posting server (.ofSplit made derived) w activities)
    (submitted : (server.submitted activities).Perm (parts.map (fragmentOf sender fingerprint))) :
    server.responses w activities
      = (List.replicate (parts.length - 1) (awaitingJson server.reassembler.maxFragmentSize) ++
          [assembledJson server.reassembler.maxFragmentSize sender content]).map
        fun j => .ok (jsonAnswer 200 j) := by
  obtain ⟨pieces, cut⟩ := Part.split_eq_ok made
  have count : (server.submitted activities).length = parts.length := by
    rw [submitted.length_eq, List.length_map]
  have nonempty : server.submitted activities ≠ [] :=
    List.ne_nil_of_length_pos (count.symm ▸ cut.length_pos)
  have alike : ∀ f ∈ server.submitted activities, f.messageType = defaultMessageType ∧
      (f.payload.length : Int) = server.reassembler.maxFragmentSize := by
    intro f hf
    obtain ⟨part, hp, rfl⟩ := List.mem_map.mp (submitted.mem_iff.mp hf)
    exact ⟨rfl, cut.sizes part hp⟩
  have receipts := Posting.receipts_alike (m := .ofSplit made derived) nonempty alike
  have answers :=
    congrArg (List.map fun j => (.ok (jsonAnswer 200 j) : Except Failure Response)) receipts
  rw [List.map_map, count] at answers
  exact posting.responses_eq.trans answers

end Posted

/-- A split that succeeds puts out lines that bring the file to any server of its part size: posted
in whatever order before the first of them expires, all are accepted, and the last one is answered
with the file. `key` is that of the conversation, and no buffer is open under it; there is a key
unless the fingerprint is too long to be measured in four bytes. -/
theorem file_returns
    (given : a.Gives d server.reassembler.maxFragmentSize sender fingerprint content)
    (ended : (runSplit machine d a).ending = .exit 0) :
    ∃ output, (runSplit machine d a).written a.output = .ok output ∧
      ∀ (w : World) (activities : List Activity) (bodies : List Bytes) (key : Text),
        List.Forall₂ server.Takes (requests activities) bodies → bodies.Perm output.lines →
        Reassembly.conversationKey sender (fingerprint.getD []) (a.messageId.getD noField)
          = .ok key →
        server.reassembler.Lacks w.state.buffers key → Integer.isWritable w.now = true →
        Integer.isWritable (server.run w activities).now = true →
        (server.run w activities).now < w.now + server.reassembler.ttlMs →
        server.responses w activities
          = (List.replicate (output.lines.length - 1)
                (awaitingJson server.reassembler.maxFragmentSize) ++
              [assembledJson server.reassembler.maxFragmentSize sender content]).map
            fun j => .ok (jsonAnswer 200 j) := by
  obtain ⟨type, timestampNs, parts, output, made, written, lines⟩ := given.lines_written ended
  refine ⟨output, written, ?_⟩
  intro w activities bodies key taken order derived lacks began clock timely
  have read := ofBody_partBody given.sender given.fingerprint
  have submitted := submitted_perm lines read taken order
  have submits := submits_of_takes taken fun body hb => by
    rw [order.mem_iff, lines] at hb
    obtain ⟨part, _, rfl⟩ := List.mem_map.mp hb
    exact ⟨_, read part⟩
  have posting := posting_of_submitted made derived submitted submits lacks began clock timely
  rw [responses_of_submitted made derived posting submitted, lines, List.length_map]

/-- With a fingerprint that is too long for a key none of the lines is taken, wherever they are
posted. -/
theorem file_lost {size : Int} (given : a.Gives d size sender fingerprint content)
    (ended : (runSplit machine d a).ending = .exit 0)
    (fits : size ≤ server.reassembler.maxFragmentSize)
    (long : 0x100000000 ≤ (fingerprint.getD []).length) :
    ∃ output, (runSplit machine d a).written a.output = .ok output ∧
      ∀ (w : World) (activities : List Activity) (bodies : List Bytes),
        List.Forall₂ server.Takes (requests activities) bodies →
        (∀ body ∈ bodies, body ∈ output.lines) →
        server.responses w activities
          = List.replicate bodies.length (.error (.refusal (.key .tooBig))) := by
  obtain ⟨type, timestampNs, parts, output, made, written, lines⟩ := given.lines_written ended
  refine ⟨output, written, fun w activities => ?_⟩
  induction activities generalizing w with
  | nil =>
    intro bodies taken _
    cases taken
    rfl
  | cons activity activities ih =>
    intro bodies taken among
    cases activity with
    | wait ms => exact ih _ bodies taken among
    | request q =>
      obtain ⟨body, others, takes, later, rfl⟩ := List.forall₂_cons_left_iff.mp taken
      obtain ⟨first, rest⟩ := List.forall_mem_cons.mp among
      rw [lines] at first
      obtain ⟨part, hp, rfl⟩ := List.mem_map.mp first
      have read := ofBody_partBody given.sender given.fingerprint part
      have submits : server.Submits q (fragmentOf sender fingerprint part) :=
        ⟨_, takes.asks, takes.granted, takes.whole.symm ▸ read⟩
      have served := serve_of_no_key submits
        (Reassembly.Reassembler.handle_of_long made fits hp long w.now w.state.buffers)
      rw [Server.responses, served, ih _ others later rest]
      rfl

/-! ### A file of two lines -/

/-- A definition with a prime of the least length that there may be. -/
def leastNetwork : Network := ⟨List.replicate 194 'f'⟩

/-- A directory with a network definition and a file. -/
def desk : Directory :=
  [(⟨false, [Path.nameBytes "ndf.json"]⟩, .file (Utf8.write leastNetwork.toJson.render)),
   (⟨false, [Path.nameBytes "letter"]⟩, .file (List.replicate 80 7))]

def letter : SplitArguments where
  networkPath := some "ndf.json"
  sender := Reassembly.Reassembler.straggler.sender.text
  input := some "letter"
  fingerprint := none
  messageId := some 9
  messageType := some 5
  timestampNs := some none
  output := none

/-- A server with the part size of the definition. -/
def office : Server where
  source := .connection desktop.memory
  address := ⟨[], 8080⟩
  reassembler := { Reassembly.Reassembler.narrow with maxFragmentSize := 96 }
  maxBodyBytes := defaultMaxBodyBytes

theorem sizeOfParts_desk : Command.sizeOfParts desk letter.networkPath = .ok 96 := by
  have size : (Command.sizeOfParts desk letter.networkPath).toOption = some 96 := by
    decide +kernel
  exact toOption_eq_some.mp size

theorem gives_letter : letter.Gives desk 96 Reassembly.Reassembler.straggler.sender none
    (List.replicate 80 7) where
  size := sizeOfParts_desk
  sender := rfl
  fingerprint := rfl
  content := ⟨_, rfl, rfl⟩

theorem ending_letter : (runSplit desktop desk letter).ending = .exit 0 := by
  rw [gives_letter.runSplit_eq]
  rfl

/-- What is printed are two lines that the server admits. -/
theorem lines_letter : (Utf8.write (runSplit desktop desk letter).output).lines.length = 2 ∧
    ∀ body ∈ (Utf8.write (runSplit desktop desk letter).output).lines, body.length ≤ 1048576 := by
  decide +kernel

theorem file_returns_letter : ∃ output first second,
    (runSplit desktop desk letter).written letter.output = .ok output ∧
      output.lines = [first, second] ∧
      office.responses ⟨0, {}⟩ [.request (.posting second), .wait 5, .request (.posting first)]
        = [.ok (jsonAnswer 200 (awaitingJson 96)),
           .ok (jsonAnswer 200 (assembledJson 96 Reassembly.Reassembler.straggler.sender
             (List.replicate 80 7)))] := by
  have given : letter.Gives desk office.reassembler.maxFragmentSize
    Reassembly.Reassembler.straggler.sender none (List.replicate 80 7) := gives_letter
  have derived : Reassembly.conversationKey Reassembly.Reassembler.straggler.sender
      ((none : Option Bytes).getD []) (letter.messageId.getD noField)
      = .ok Reassembly.Reassembler.stragglerKey := rfl
  obtain ⟨output, written, posted⟩ := file_returns given ending_letter
  obtain rfl : Utf8.write (runSplit desktop desk letter).output = output := Except.ok.inj written
  obtain ⟨two, short⟩ := lines_letter
  obtain ⟨first, second, lines⟩ := List.length_eq_two.mp two
  have takes : ∀ body ∈ [first, second], office.Takes (.posting body) body := by
    intro body hb
    have length := short body (lines ▸ hb)
    refine takes_posting (Int.ofNat_le.mpr length) (Memory.grants_iff.mpr ?_)
    show (body.length : Int) ≤ 0x40000000
    omega
  have taken : List.Forall₂ office.Takes [.posting second, .posting first] [second, first] :=
    .cons (takes second (by simp)) (.cons (takes first (by simp)) .nil)
  have order : [second, first].Perm (Utf8.write (runSplit desktop desk letter).output).lines :=
    lines ▸ .swap first second []
  refine ⟨_, first, second, written, lines, ?_⟩
  rw [posted ⟨0, {}⟩ [.request (.posting second), .wait 5, .request (.posting first)] _ _ taken
    order derived (Reassembly.Reassembler.lacks_empty _ _)
    (Integer.isWritable_of_lt (Int.le_refl 0) (by decide))
    (Integer.isWritable_of_lt (n := 5) (by decide) (by decide))
    (show (5 : Int) < 0 + 1000 by decide), lines]
  rfl

/-! ### A fingerprint that is too long -/

/-- The letter with a fingerprint. -/
def letterWith (fingerprint : Bytes) : SplitArguments :=
  { letter with fingerprint := some (Base64.write fingerprint) }

/-- A server with the same part size that has room for longer bodies. -/
def archive : Server :=
  { office with
    source := .connection { size := 0x10000000000, portion_le := by decide, size_lt := by decide }
    maxBodyBytes := 0x10000000000 }

theorem gives_letterWith {fingerprint : Bytes} (nonempty : 0 < fingerprint.length) :
    (letterWith fingerprint).Gives desk 96 Reassembly.Reassembler.straggler.sender
      (some fingerprint) (List.replicate 80 7) where
  size := sizeOfParts_desk
  sender := rfl
  fingerprint := by
    obtain ⟨c, t, text⟩ : ∃ c t, Base64.write fingerprint = c :: t := by
      rw [← List.length_pos_iff_exists_cons, Base64.length_write]
      omega
    show Fragment.fingerprintOf (some (Base64.write fingerprint)) = _
    rw [text, Fragment.fingerprintOf, ← text, Base64.readStrict_write]
    · rfl
    · exact List.cons_ne_nil c t
  content := ⟨_, rfl, rfl⟩

theorem ending_letterWith {fingerprint : Bytes} (nonempty : 0 < fingerprint.length) :
    (runSplit desktop desk (letterWith fingerprint)).ending = .exit 0 := by
  have some : (Part.split desktop.memory (List.replicate 80 7) 96 9 5 8).toOption.isSome := by
    decide +kernel
  obtain ⟨parts, some⟩ := Option.isSome_iff_exists.mp some
  have made : Part.split desktop.memory (List.replicate 80 7) 96
      ((letterWith fingerprint).messageId.getD noField)
      ((letterWith fingerprint).messageType.getD noField)
      (((letterWith fingerprint).timestampNs.map (·.getD desktop.ns)).getD noField) = .ok parts :=
    toOption_eq_some.mp some
  rw [(gives_letterWith nonempty).runSplit_eq, splitPayload]
  simp only [made]
  rfl

/-- The archive has room for a line of the letter, also with the shortest fingerprint that is too
long. -/
theorem takes_archive {fingerprint part : Bytes}
    (given : (letterWith fingerprint).Gives d 96 Reassembly.Reassembler.straggler.sender
      (some fingerprint) content)
    (bound : fingerprint.length ≤ 0x100000000) (size : part.length = 96) :
    archive.Takes
      (.posting (Utf8.write (Command.partBody (letterWith fingerprint).sender
        (letterWith fingerprint).fingerprint part).render))
      (Utf8.write (Command.partBody (letterWith fingerprint).sender
        (letterWith fingerprint).fingerprint part).render) := by
  have length := length_partBody_le given.sender given.fingerprint part
  have valid : Reassembly.Reassembler.straggler.sender.IsValid := rfl
  have sender : (letterWith fingerprint).sender.length = 44 := valid.length_text
  have text : ((letterWith fingerprint).fingerprint.getD []).length
      = (fingerprint.length + 2) / 3 * 4 := Base64.length_write fingerprint
  rw [sender, text, Base64.length_write, size] at length
  refine takes_posting ?_ (Memory.grants_iff.mpr ?_)
  · show _ ≤ (0x10000000000 : Int)
    omega
  · show _ ≤ (0x10000000000 : Int)
    omega

/-- The letter is split, but with a fingerprint that is too long it does not come back. -/
theorem letter_lost : ∃ output first second,
    (letterWith Reassembly.longFingerprint).Gives desk archive.reassembler.maxFragmentSize
      Reassembly.Reassembler.straggler.sender (some Reassembly.longFingerprint)
      (List.replicate 80 7) ∧
    (runSplit desktop desk (letterWith Reassembly.longFingerprint)).ending = .exit 0 ∧
    (runSplit desktop desk (letterWith Reassembly.longFingerprint)).written none = .ok output ∧
    output.lines = [first, second] ∧
    archive.Takes (.posting first) first ∧ archive.Takes (.posting second) second ∧
    archive.responses ⟨0, {}⟩ [.request (.posting first), .wait 5, .request (.posting second)]
      = [.error (.refusal (.key .tooBig)), .error (.refusal (.key .tooBig))] := by
  have length := Reassembly.length_longFingerprint
  have nonempty : 0 < Reassembly.longFingerprint.length := by omega
  have given := gives_letterWith nonempty
  have ended := ending_letterWith nonempty
  have fits : (96 : Int) ≤ archive.reassembler.maxFragmentSize := Int.le_refl 96
  obtain ⟨output, written, lost⟩ := file_lost given ended fits (Nat.le_of_eq length.symm)
  obtain ⟨_, _, parts, _, made, same, lines⟩ := given.lines_written ended
  obtain rfl := Except.ok.inj (same.symm.trans written)
  have cut := Part.areParts_of_split made
  have two : parts.length = 2 := by
    rw [cut.count]
    decide
  obtain ⟨one, other, rfl⟩ := List.length_eq_two.mp two
  rw [List.map_cons, List.map_singleton] at lines
  have small : ∀ part ∈ [one, other], part.length = 96 := fun part hp => by
    have size := cut.sizes part hp
    exact Int.ofNat_inj.mp size
  have first := takes_archive given (Nat.le_of_eq length) (small one (by simp))
  have second := takes_archive given (Nat.le_of_eq length) (small other (by simp))
  refine ⟨_, _, _, given, ended, written, lines, first, second, ?_⟩
  exact lost ⟨0, {}⟩ [.request (.posting _), .wait 5, .request (.posting _)] _
    (.cons first (.cons second .nil)) fun body hb => lines ▸ hb

end PartRelay
