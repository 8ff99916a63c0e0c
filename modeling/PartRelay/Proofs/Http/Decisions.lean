import PartRelay.Proofs.Http.Headers
import PartRelay.Proofs.Intake

/-!
# How requests are decided

The answer to a request follows from its method, its route, the length that it declares and the body
behind it, and only for a part also from the parts that have come in before, unless its lines are
over the limits. Two kinds of requests get no answer: a length is admitted that cannot be asked for,
or a fingerprint that the key cannot measure.
-/

namespace PartRelay.Http

open Reassembly (Progress Message Conflict)

/-! ## Responses -/

/-- A value as the line of a response. -/
def jsonAnswer (status : Nat) (j : Json) : Response where
  status
  contentType := .json
  length := (Utf8.write (Text.join [j.render, "\n"])).length
  body := Text.join [j.render, "\n"]

theorem jsonResponse_of_writable {j : Json} (status : Nat) (h : j.isWritable = true) :
    jsonResponse status j = .ok (jsonAnswer status j) := by
  rw [jsonResponse, Json.render?, if_pos h]
  rfl

/-- What `/healthz` tells. -/
def healthJson (server : Server) : Json :=
  .object
    [("status", .string "ok"), ("maxFragmentSize", .int server.reassembler.maxFragmentSize)]

/-! ## Decisions -/

/-- The answer to a request that is not turned away and whose target has this route, and the state
after it. -/
inductive Decides (server : Server) (now : Int) (s : Intake.State) (q : Request) (path : Text) :
    Except Failure Response × Intake.State → Prop where
  | health (method : q.method = "GET") (routed : path = healthRoute) :
      Decides server now s q path (.ok (jsonAnswer 200 (healthJson server)), s)
  | notAllowed (method : q.method ≠ "POST") (routed : path = partsRoute) :
      Decides server now s q path (.ok (textResponse q 405 "only POST allowed"), s)
  | notFound (routed : path ≠ partsRoute) (other : ¬ (q.method = "GET" ∧ path = healthRoute)) :
      Decides server now s q path (.ok (textResponse q 404 "404 page not found"), s)
  | badLength (method : q.method = "POST") (routed : path = partsRoute)
      (cause : Integer.ReadError) (declared : declaredLength q.received.headers = .error cause) :
      Decides server now s q path (.ok (textResponse q 400 "invalid Content-Length"), s)
  | tooLarge (method : q.method = "POST") (routed : path = partsRoute) (length : Int)
      (declared : declaredLength q.received.headers = .ok length)
      (exceeds : server.maxBodyBytes < length) :
      Decides server now s q path (.ok (textResponse q 413 (Text.join
        ["request body exceeds ", Text.ofInt server.maxBodyBytes, " bytes"])), s)
  /-- A length that is admitted but cannot be asked for. -/
  | unasked (length : Int) (asks : server.Asks q length)
      (beyond : server.source.grants length = false) :
      Decides server now s q path (.error (.length (.ofCount length)), s)
  | invalid (length : Int) (asks : server.Asks q length)
      (granted : server.source.grants length = true)
      (cause : Fragment.RequestError) (given : Fragment.ofBody (q.taken length) = .error cause) :
      Decides server now s q path (.ok (textResponse q 400 cause.message), s)
  | malformed (f : Fragment) (submitted : server.Submits q f) (cause : Part.Error)
      (refused : (server.reassembler.handle now s.buffers (Intake.deliveryOf f)).1
        = .error (.part cause)) (log : Option EventLog) :
      Decides server now s q path (.ok (textResponse q 400 ("invalid payload: " ++ cause.message)),
        ⟨(server.reassembler.handle now s.buffers (Intake.deliveryOf f)).2, log⟩)
  | conflict (f : Fragment) (submitted : server.Submits q f) (cause : Conflict)
      (refused : (server.reassembler.handle now s.buffers (Intake.deliveryOf f)).1
        = .error (.conflict cause)) (log : Option EventLog) :
      Decides server now s q path
        (.ok (textResponse q 500 ("reassembly failed: " ++ cause.message)),
        ⟨(server.reassembler.handle now s.buffers (Intake.deliveryOf f)).2, log⟩)
  | pending (f : Fragment) (submitted : server.Submits q f)
      (taken : (server.reassembler.handle now s.buffers (Intake.deliveryOf f)).1 = .ok .pending)
      (log : Option EventLog) :
      Decides server now s q path (.ok (jsonAnswer 200 (Intake.waiting f).toJson),
        ⟨(server.reassembler.handle now s.buffers (Intake.deliveryOf f)).2, log⟩)
  | complete (f : Fragment) (submitted : server.Submits q f) (m : Message) (residue : Option Bytes)
      (taken : (server.reassembler.handle now s.buffers (Intake.deliveryOf f)).1
        = .ok (.complete m residue)) (log : Option EventLog) :
      Decides server now s q path (.ok (jsonAnswer 200 (Intake.completing f m).toJson),
        ⟨(server.reassembler.handle now s.buffers (Intake.deliveryOf f)).2, log⟩)
  /-- A fingerprint that the key cannot measure. -/
  | unmeasured (f : Fragment) (submitted : server.Submits q f)
      (long : 0x100000000 ≤ (f.fingerprint.getD []).length) (log : Option EventLog) :
      Decides server now s q path (.error (.refusal (.key .tooBig)),
        ⟨(server.reassembler.handle now s.buffers (Intake.deliveryOf f)).2, log⟩)

variable {server : Server} {now : Int} {s : Intake.State} {q : Request} {path : Text}

/-- Whether neither the length of a request nor its fingerprint is out of reach. -/
structure Server.CanServe (server : Server) (q : Request) : Prop where
  length : ∀ length, server.Asks q length → server.source.grants length = true
  fingerprint : ∀ f, server.Submits q f → (f.fingerprint.getD []).length < 0x100000000

/-- Such a request has a response. -/
theorem Decides.exists_response {result : Except Failure Response × Intake.State}
    (h : Decides server now s q path result) (reach : server.CanServe q) :
    ∃ response, result.1 = .ok response := by
  cases h with
  | unasked length asks beyond =>
    rw [reach.length length asks] at beyond
    cases beyond
  | unmeasured f submitted long =>
    exact absurd (reach.fingerprint f submitted) (Nat.not_lt.mpr long)
  | _ => exact ⟨_, rfl⟩

/-! ## Requests that submit nothing -/

theorem decides_health (framed : q.fault? = none)
    (size : Integer.isWritable server.reassembler.maxFragmentSize = true)
    (routed : route q.target = .ok path) (health : q.method = "GET" ∧ path = healthRoute) :
    Decides server now s q path (serve server now s q) := by
  have writable : (healthJson server).isWritable = true := by
    simp [healthJson, Json.isWritable, Json.fieldsWritable, size]
  have line := jsonResponse_of_writable 200 writable
  rw [healthJson] at line
  rw [serve_of_framed framed]
  simp only [dispatch, routed, if_pos health, line]
  exact .health health.1 health.2

/-- Any route but the one for parts is not found, and any method but `POST` is not allowed on it. -/
theorem decides_elsewhere (framed : q.fault? = none) (routed : route q.target = .ok path)
    (other : ¬ (q.method = "GET" ∧ path = healthRoute))
    (elsewhere : ¬ (q.method = "POST" ∧ path = partsRoute)) :
    Decides server now s q path (serve server now s q) := by
  rw [serve_of_framed framed]
  simp only [dispatch, routed, if_neg other, if_neg elsewhere]
  split
  next method => exact .notFound (fun parts => elsewhere ⟨method, parts⟩) other
  next method =>
    rw [notAllowed]
    split
    next parts => exact .notAllowed method parts
    next missing => exact .notFound missing other

theorem decides_length (framed : q.fault? = none)
    (limit : Integer.isWritable server.maxBodyBytes = true)
    (method : q.method = "POST") (routed : route q.target = .ok partsRoute)
    (unasked : ∀ length, server.Asks q length → server.source.grants length = false) :
    Decides server now s q partsRoute (serve server now s q) := by
  rw [serve_post framed method routed, post]
  cases declared : declaredLength q.received.headers with
  | error cause => exact .badLength method rfl cause declared
  | ok length =>
    dsimp only
    split
    next exceeds =>
      rw [tooLarge, if_pos limit]
      exact .tooLarge method rfl length declared exceeds
    next fits =>
      have asks : server.Asks q length :=
        ⟨framed, method, routed, declared, Int.not_lt.mp fits⟩
      rw [unasked length asks]
      exact .unasked length asks (unasked length asks)

theorem decides_invalid {length : Int} {cause : Fragment.RequestError}
    (asks : server.Asks q length) (granted : server.source.grants length = true)
    (given : Fragment.ofBody (q.taken length) = .error cause) :
    Decides server now s q partsRoute (serve server now s q) := by
  rw [serve_of_asks asks granted, postPart, ofRequest_post asks.method, given]
  simp only [Fragment.status_of_ofBody given]
  exact .invalid length asks granted cause given

/-! ## Requests that submit a part -/

/-- A part that is accepted is answered with its receipt. -/
theorem serve_accepted {f : Fragment} {progress : Progress} (submitted : server.Submits q f)
    (taken : (server.reassembler.handle now s.buffers (Intake.deliveryOf f)).1 = .ok progress)
    (orderly : Reassembly.Reassembler.IsOrderly (Intake.deliveryOf f) (.ok progress))
    (size : Integer.isWritable server.reassembler.maxFragmentSize = true)
    (written : Integer.isWritable now = true) :
    ∃ log, serve server now s q
      = (.ok (jsonAnswer 200 (Intake.receiptOf f progress).toJson),
        ⟨(server.reassembler.handle now s.buffers (Intake.deliveryOf f)).2, log⟩) := by
  obtain ⟨_, _, _, given⟩ := id submitted
  have numbers := Intake.hasWritableNumbers_of_ofBody given
  have length := Intake.isWritable_length size taken
  obtain ⟨receipt, log, handled, concludes⟩ :=
    Intake.handle_concludes (taken ▸ orderly) size written numbers
  rw [taken] at concludes
  cases concludes
  refine ⟨log, ?_⟩
  have writable := Intake.isWritable_receiptOf orderly length numbers
  rw [serve_of_submits submitted, handled, answer, jsonResponse_of_writable 200 writable]
  rfl

/-- A part that gets an orderly answer is decided by it. -/
theorem decides_submitted {f : Fragment} (submitted : server.Submits q f)
    (orderly : Reassembly.Reassembler.IsOrderly (Intake.deliveryOf f)
      (server.reassembler.handle now s.buffers (Intake.deliveryOf f)).1)
    (size : Integer.isWritable server.reassembler.maxFragmentSize = true)
    (written : Integer.isWritable now = true) :
    Decides server now s q partsRoute (serve server now s q) := by
  cases outcome : (server.reassembler.handle now s.buffers (Intake.deliveryOf f)).1 with
  | ok progress =>
    obtain ⟨log, served⟩ := serve_accepted submitted outcome (outcome ▸ orderly) size written
    rw [served]
    cases progress with
    | pending => exact .pending f submitted outcome log
    | complete m residue => exact .complete f submitted m residue outcome log
  | error e =>
    obtain ⟨_, _, _, given⟩ := id submitted
    obtain ⟨receipt, log, handled, concludes⟩ := Intake.handle_concludes orderly size written
      (Intake.hasWritableNumbers_of_ofBody given)
    rw [serve_of_submits submitted, handled]
    rw [outcome] at orderly concludes
    cases concludes with
    | malformed cause => exact .malformed f submitted cause outcome log
    | conflict cause => exact .conflict f submitted cause outcome log
    | unmeasured =>
      cases orderly with
      | unmeasured long => exact .unmeasured f submitted long log

/-! ## Runs -/

theorem build_eq_ok {source : Source} {levels : Json.Levels} {settings : Settings}
    {maxFragmentSize : Int} (built : build source levels settings maxFragmentSize = .ok server) :
    Reassembly.Reassembler.create { levels } maxFragmentSize settings.partTtlMs
        = .ok server.reassembler ∧
      server.maxBodyBytes = settings.maxBodyBytes := by
  rw [build] at built
  split at built
  · cases built
  next made =>
    split at built
    · cases built
    cases built
    exact ⟨made, rfl⟩

/-- After whatever has come in, a part that is submitted gets an orderly answer. -/
theorem isOrderly_of_submits {start : Int} {log : Option EventLog} {activities : List Activity}
    (began : Integer.isWritable start = true)
    (written : Integer.isWritable (server.run ⟨start, { log }⟩ activities).now = true)
    {f : Fragment} (submitted : server.Submits q f) :
    Reassembly.Reassembler.IsOrderly (Intake.deliveryOf f)
      (server.reassembler.handle (server.run ⟨start, { log }⟩ activities).now
        (server.run ⟨start, { log }⟩ activities).state.buffers (Intake.deliveryOf f)).1 := by
  have inner := inner_run server ⟨start, { log }⟩ activities
  have clock := congrArg Reassembly.World.now inner
  have buffers := congrArg Reassembly.World.state inner
  dsimp only [World.inner] at clock buffers
  rw [clock] at written ⊢
  rw [buffers]
  exact Reassembly.Reassembler.isOrderly_handle (fun op => hasValidSender_of_mem) began written
    (isValid_of_submits submitted)

/-- Every request that is not turned away is decided. -/
theorem decides_framed {start : Int} {log : Option EventLog} {activities : List Activity}
    (size : Integer.isWritable server.reassembler.maxFragmentSize = true)
    (limit : Integer.isWritable server.maxBodyBytes = true)
    (began : Integer.isWritable start = true)
    (written : Integer.isWritable (server.run ⟨start, { log }⟩ activities).now = true)
    (routed : route q.target = .ok path) (framed : q.fault? = none) :
    Decides server (server.run ⟨start, { log }⟩ activities).now
      (server.run ⟨start, { log }⟩ activities).state q path
      (serve server (server.run ⟨start, { log }⟩ activities).now
        (server.run ⟨start, { log }⟩ activities).state q) := by
  by_cases health : q.method = "GET" ∧ path = healthRoute
  · exact decides_health framed size routed health
  by_cases posted : q.method = "POST" ∧ path = partsRoute
  · obtain ⟨method, rfl⟩ := posted
    by_cases asked : ∃ length, server.Asks q length ∧ server.source.grants length = true
    · obtain ⟨length, asks, granted⟩ := asked
      cases given : Fragment.ofBody (q.taken length) with
      | error cause => exact decides_invalid asks granted given
      | ok f =>
        have submitted : server.Submits q f := ⟨length, asks, granted, given⟩
        have orderly := isOrderly_of_submits began written submitted
        exact decides_submitted submitted orderly size written
    · refine decides_length framed limit method routed fun length asks => ?_
      exact Bool.eq_false_iff.mpr fun granted => asked ⟨length, asks, granted⟩
  · exact decides_elsewhere framed routed health posted

/-- Every request to a server that has been built with numbers that can be written is answered, at a
time that can be written, whatever has come in before: it is turned away for its lines, or decided.
If it is not out of reach, it has a response. -/
theorem serve_decides {source : Source} {levels : Json.Levels} {settings : Settings}
    {maxFragmentSize : Int} (built : build source levels settings maxFragmentSize = .ok server)
    (size : Integer.isWritable maxFragmentSize = true)
    (limit : Integer.isWritable settings.maxBodyBytes = true)
    {start : Int} (log : Option EventLog) (activities : List Activity)
    (began : Integer.isWritable start = true)
    (written : Integer.isWritable (server.run ⟨start, { log }⟩ activities).now = true)
    (routed : route q.target = .ok path) :
    (∀ e, q.fault? = some e →
      serve server (server.run ⟨start, { log }⟩ activities).now
        (server.run ⟨start, { log }⟩ activities).state q
        = (.ok (faultResponse q e), (server.run ⟨start, { log }⟩ activities).state)) ∧
    (q.fault? = none →
      Decides server (server.run ⟨start, { log }⟩ activities).now
        (server.run ⟨start, { log }⟩ activities).state q path
        (serve server (server.run ⟨start, { log }⟩ activities).now
          (server.run ⟨start, { log }⟩ activities).state q)) ∧
    (server.CanServe q → ∃ response,
      (serve server (server.run ⟨start, { log }⟩ activities).now
        (server.run ⟨start, { log }⟩ activities).state q).1 = .ok response) := by
  obtain ⟨made, same⟩ := build_eq_ok built
  obtain ⟨_, fragment, _⟩ := Reassembly.Reassembler.create_eq_ok made
  rw [← fragment] at size
  rw [← same] at limit
  refine ⟨fun e turned => serve_of_fault turned,
    decides_framed size limit began written routed, fun reach => ?_⟩
  cases framed : q.fault? with
  | some e =>
    rw [serve_of_fault framed]
    exact ⟨_, rfl⟩
  | none => exact (decides_framed size limit began written routed framed).exists_response reach

/-! ### Two servers -/

/-- A server with the usual settings. -/
def usual : Server where
  source := .connection .gigabyte
  address := ⟨[], 8080⟩
  reassembler := { Reassembly.Reassembler.narrow with ttlMs := defaultPartTtlMs }
  maxBodyBytes := defaultMaxBodyBytes

/-- A post that declares more than there is. -/
def emptyPost : Request := { Request.posting [] with headers := [("Content-Length", "7")] }

/-- The only part of a message, submitted without overrides. -/
def lone : Fragment where
  sender := ⟨List.replicate 33 3⟩
  payload := [0, 0, 0, 7, 0, 0, 2, 1, 0, 0, 0, 9, 0, 0, 0, 0, 0, 0, 0, 5, 104, 105, 0]

/-- The post that submits it. -/
def lonePost : Request := .posting (Utf8.write (Json.object
  [("senderId", .string lone.sender.text),
   ("payload", .string (Base64.write lone.payload))]).render)

theorem submits_lone : usual.Submits lonePost lone := by
  have given : Fragment.ofBody lonePost.body = .ok lone :=
    toOption_eq_some.mp (by decide +kernel)
  have short : lonePost.body.length ≤ 1000 := by decide +kernel
  have takes : usual.Takes lonePost lonePost.body :=
    takes_posting (show (lonePost.body.length : Int) ≤ 1048576 by omega)
      (Memory.grants_iff.mpr (show (lonePost.body.length : Int) ≤ 0x40000000 by omega))
  exact ⟨_, takes.asks, takes.granted, takes.whole.symm ▸ given⟩

theorem canServe_lone : usual.CanServe lonePost where
  length := by
    intro length asks
    have fits : length ≤ 1048576 := asks.fits
    exact Memory.grants_iff.mpr (show length ≤ 0x40000000 by omega)
  fingerprint := by
    intro f submitted
    have one := submission?_eq_some.mpr submits_lone
    rw [submission?_eq_some.mpr submitted] at one
    cases one
    decide

/-- A part that completes its message at once, after a post that was refused. -/
theorem serve_decides_usual :
    usual.Submits lonePost lone ∧
    Decides usual 5 (usual.run ⟨0, {}⟩ [.request emptyPost, .wait 5]).state lonePost partsRoute
      (serve usual 5 (usual.run ⟨0, {}⟩ [.request emptyPost, .wait 5]).state lonePost) ∧
    ∃ response, (serve usual 5 (usual.run ⟨0, {}⟩ [.request emptyPost, .wait 5]).state
      lonePost).1 = .ok response := by
  have built : build (.connection .gigabyte) View.shallow.levels {} 64 = .ok usual := rfl
  have small : Integer.isWritable 64 = true := Integer.isWritable_of_lt (by decide) (by decide)
  have limit : Integer.isWritable ({} : Settings).maxBodyBytes = true :=
    Integer.isWritable_of_lt (n := 1048576) (by decide) (by decide)
  have began : Integer.isWritable 0 = true := Integer.isWritable_of_lt (Int.le_refl 0) (by decide)
  have now : (usual.run ⟨0, {}⟩ [.request emptyPost, .wait 5]).now = 5 := rfl
  have written : Integer.isWritable (usual.run ⟨0, {}⟩ [.request emptyPost, .wait 5]).now = true :=
    now ▸ Integer.isWritable_of_lt (by decide) (by decide)
  obtain ⟨_, asks, _⟩ := id submits_lone
  obtain ⟨_, decided, answered⟩ := @serve_decides usual lonePost partsRoute _ _ _ _ built small
    limit 0 none [.request emptyPost, .wait 5] began written asks.routed
  rw [now] at decided answered
  exact ⟨submits_lone, decided asks.framed, answered canServe_lone⟩

/-- A server that admits bodies of any length that can be written down in 64 bits. -/
def generous (source : Source) : Server :=
  { usual with source, maxBodyBytes := 0x10000000000000000 }

/-- A post that declares the least length of more than 63 bits. -/
def boldPost : Request :=
  { Request.posting [0x7B, 0x7D] with headers := [("Content-Length", "9223372036854775808")] }

/-- A length that is admitted and cannot be asked for leaves a request without a response, wherever
bodies are read from. -/
theorem no_response_boldPost :
    boldPost.fault? = none ∧ route boldPost.target = .ok partsRoute ∧
      ∀ source, build source View.shallow.levels { maxBodyBytes := 0x10000000000000000 } 64
          = .ok (generous source) ∧
        ¬ ∃ response, (serve (generous source) 0 {} boldPost).1 = .ok response := by
  have framed : boldPost.fault? = none := by decide +kernel
  refine ⟨framed, rfl, fun source => ⟨rfl, ?_⟩⟩
  have asks : (generous source).Asks boldPost 9223372036854775808 :=
    { framed
      method := rfl
      routed := rfl
      declared := by rfl
      fits := by show (9223372036854775808 : Int) ≤ 0x10000000000000000; decide }
  have refused : source.grants 9223372036854775808 = false := by
    rw [Bool.eq_false_iff]
    exact fun granted => absurd (Source.lt_of_grants granted) (by decide)
  have answer : (serve (generous source) 0 {} boldPost).1 = .error (.length .notALength) := by
    rw [serve_post framed asks.method asks.routed, post]
    simp only [asks.declared, if_neg (Int.not_lt.mpr asks.fits)]
    rw [show (generous source).source = source from rfl, refused]
    rfl
  rw [answer]
  rintro ⟨response, none⟩
  cases none

end PartRelay.Http
