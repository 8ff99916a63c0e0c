import PartRelay.Http.Server
import PartRelay.Proofs.Bytes.Memory
import PartRelay.Proofs.Fragment
import PartRelay.Proofs.Reassembly.Runs

/-!
# Servers at work

What one server goes through: requests come in, time passes. Of a request its reassembler sees
nothing but the part that it submits, and of most requests nothing at all, so that the buffers of a
server are those of a run of its reassembler.
-/

namespace PartRelay.Http

/-! ## Worlds and activities -/

/-- The clock, and what the server keeps. -/
@[ext] structure World where
  now : Int
  state : Intake.State

inductive Activity where
  | request (request : Request)
  /-- The clock goes on; it never goes back. -/
  | wait (ms : Int)

namespace Server

variable (server : Server)

def step (w : World) : Activity → World
  | .request q => ⟨w.now, (serve server w.now w.state q).2⟩
  | .wait ms => ⟨w.now + max 0 ms, w.state⟩

/-- The world that a list of activities leads to. -/
def run (w : World) : List Activity → World
  | [] => w
  | activity :: activities => run (server.step w activity) activities

theorem run_append (w : World) (activities later : List Activity) :
    server.run w (activities ++ later) = server.run (server.run w activities) later := by
  induction activities generalizing w with
  | nil => rfl
  | cons activity activities ih => exact ih _

end Server

/-- The requests among activities. -/
def requests (activities : List Activity) : List Request :=
  activities.filterMap fun
    | .request q => some q
    | .wait _ => none

/-- The answers to the requests of a run, in order. -/
def Server.responses (server : Server) (w : World) :
    List Activity → List (Except Failure Response)
  | [] => []
  | .wait ms :: later => responses server (server.step w (.wait ms)) later
  | .request q :: later =>
    (serve server w.now w.state q).1 :: responses server (server.step w (.request q)) later

/-! ## Submissions -/

/-- A post to the route for parts that declares a length within the server's limit. -/
structure Server.Asks (server : Server) (q : Request) (length : Int) : Prop where
  framed : q.fault? = none
  method : q.method = "POST"
  routed : route q.target = .ok partsRoute
  declared : declaredLength q.received.headers = .ok length
  fits : length ≤ server.maxBodyBytes

/-- What is asked for of the body of a request. -/
def Request.taken (q : Request) (length : Int) : Bytes := q.received.body.take length.toNat

/-- A request that gives a fragment to a server. -/
def Server.Submits (server : Server) (q : Request) (f : Fragment) : Prop :=
  ∃ length, server.Asks q length ∧ server.source.grants length = true ∧
    Fragment.ofBody (q.taken length) = .ok f

/-- The fragment that a request submits, if it does. -/
def Server.submission? (server : Server) (q : Request) : Option Fragment :=
  match q.fault?, route q.target, declaredLength q.received.headers with
  | none, .ok route, .ok length =>
    if q.method = "POST" ∧ route = partsRoute ∧ length ≤ server.maxBodyBytes ∧
        server.source.grants length = true then
      (Fragment.ofBody (q.taken length)).toOption
    else none
  | _, _, _ => none

/-- The fragments that activities submit, in order. -/
def Server.submitted (server : Server) (activities : List Activity) : List Fragment :=
  (requests activities).filterMap server.submission?

variable {server : Server} {now : Int} {s : Intake.State} {q : Request} {f : Fragment}
  {length : Int}

theorem submission?_of_asks (h : server.Asks q length)
    (granted : server.source.grants length = true) :
    server.submission? q = (Fragment.ofBody (q.taken length)).toOption := by
  simp only [Server.submission?, h.framed, h.routed, h.declared, h.method, h.fits, granted,
    and_self, if_true]

theorem submission?_eq_some : server.submission? q = some f ↔ server.Submits q f := by
  constructor
  · intro h
    rw [Server.submission?] at h
    split at h
    next route length framed routed declared =>
      split at h
      next asked =>
        obtain ⟨method, rfl, fits, granted⟩ := asked
        exact ⟨length, ⟨framed, method, routed, declared, fits⟩, granted, toOption_eq_some.mp h⟩
      next => cases h
    · cases h
  · rintro ⟨length, asks, granted, given⟩
    rw [submission?_of_asks asks granted, given]
    rfl

/-! ## Answers -/

theorem ofRequest_post (method : q.method = "POST") (body : Bytes) :
    Fragment.ofRequest q.method body = Fragment.ofBody body := by
  have upper : Text.upper "POST" = ("POST" : Text) := by decide
  rw [Fragment.ofRequest, method, upper, if_neg (fun differ => differ rfl)]

theorem serve_of_fault {e : RequestFault} (turned : q.fault? = some e) :
    serve server now s q = (.ok (faultResponse q e), s) := by
  rw [serve, turned]

theorem serve_of_framed (framed : q.fault? = none) :
    serve server now s q = dispatch server now s q := by
  rw [serve, framed]

/-- A post to the route for parts is answered on its declared length, and then on its body. -/
theorem serve_post (framed : q.fault? = none) (method : q.method = "POST")
    (routed : route q.target = .ok partsRoute) : serve server now s q = post server now s q := by
  have other : ¬ ((Text.ofString "POST") = "GET" ∧ partsRoute = healthRoute) := by decide
  rw [serve_of_framed framed]
  simp only [dispatch, routed, method, if_neg other, and_self, if_true]

theorem serve_of_asks (h : server.Asks q length) (granted : server.source.grants length = true) :
    serve server now s q = postPart server now s q (q.taken length) := by
  rw [serve_post h.framed h.method h.routed, post]
  simp only [h.declared, if_neg (Int.not_lt.mpr h.fits), granted, Bool.not_true,
    Bool.false_eq_true, if_false, Request.taken]

/-- A fragment that is submitted goes to the intake, and its receipt makes the answer. -/
theorem serve_of_submits (h : server.Submits q f) :
    serve server now s q = (answer q (Intake.handle server.reassembler now s f).1,
      (Intake.handle server.reassembler now s f).2) := by
  obtain ⟨length, asks, granted, given⟩ := h
  rw [serve_of_asks asks granted, postPart, ofRequest_post asks.method, given]

/-- A fragment without a key has no answer, and leaves no trace. -/
theorem serve_of_no_key {cause : Reassembly.KeyError} (h : server.Submits q f)
    (refused : server.reassembler.handle now s.buffers (Intake.deliveryOf f)
      = (.error (.key cause), s.buffers)) :
    serve server now s q = (.error (.refusal (.key cause)), s) := by
  rw [serve_of_submits h, Intake.handle]
  simp only [refused]
  cases s with
  | mk buffers log => cases log <;> rfl

/-- A request that submits nothing leaves everything as it is. -/
theorem state_of_no_submission (h : server.submission? q = none) :
    (serve server now s q).2 = s := by
  by_cases framed : q.fault? = none
  case neg =>
    obtain ⟨e, turned⟩ := Option.ne_none_iff_exists'.mp framed
    rw [serve_of_fault turned]
  rw [serve_of_framed framed, dispatch]
  split
  · rfl
  next route routed =>
    split
    · rfl
    split
    next posted =>
      obtain ⟨method, rfl⟩ := posted
      rw [post]
      split
      · rfl
      next length declared =>
        split
        · rfl
        next fits =>
          split
          · rfl
          next granted =>
            replace granted : server.source.grants length = true := by simpa using granted
            have asks : server.Asks q length :=
              ⟨framed, method, routed, declared, Int.not_lt.mp fits⟩
            rw [postPart, ofRequest_post method]
            cases given : Fragment.ofBody (q.taken length) with
            | error e =>
              rw [Request.taken] at given
              simp only [given]
            | ok f =>
              rw [submission?_of_asks asks granted, given] at h
              cases h
    split
    · rfl
    · rfl

/-! ## The run of the reassembler -/

open Reassembly (Operation)

/-- What an activity is for the reassembler. -/
def Server.operations (server : Server) : Activity → List Operation
  | .wait ms => [.advance ms]
  | .request q => (server.submission? q).toList.map fun f => .deliver (Intake.deliveryOf f)

/-- The world of the reassembler. -/
def World.inner (w : World) : Reassembly.World := ⟨w.now, w.state.buffers⟩

theorem buffers_handle (r : Reassembly.Reassembler) (now : Int) (s : Intake.State) (f : Fragment) :
    (Intake.handle r now s f).2.buffers = (r.handle now s.buffers (Intake.deliveryOf f)).2 := rfl

theorem inner_step (server : Server) (w : World) (activity : Activity) :
    (server.step w activity).inner
      = server.reassembler.run w.inner (server.operations activity) := by
  cases activity with
  | wait ms => rfl
  | request q =>
    cases submitted : server.submission? q with
    | none =>
      simp only [Server.step, Server.operations, submitted, state_of_no_submission submitted]
      rfl
    | some f =>
      simp only [Server.step, Server.operations, submitted, World.inner, buffers_handle,
        serve_of_submits (submission?_eq_some.mp submitted)]
      rfl

/-- The buffers of a server are those of its reassembler after the parts that were submitted. -/
theorem inner_run (server : Server) (w : World) (activities : List Activity) :
    (server.run w activities).inner
      = server.reassembler.run w.inner (activities.flatMap server.operations) := by
  induction activities generalizing w with
  | nil => rfl
  | cons activity activities ih =>
    rw [Server.run, ih, inner_step, List.flatMap_cons, Reassembly.Reassembler.run_append]

theorem Server.now_le_run (server : Server) (w : World) (activities : List Activity) :
    w.now ≤ (server.run w activities).now := by
  have inner := congrArg Reassembly.World.now (inner_run server w activities)
  dsimp only [World.inner] at inner
  rw [inner]
  exact server.reassembler.now_le_run w.inner _

theorem isValid_of_submits (h : server.Submits q f) : f.sender.IsValid := by
  obtain ⟨_, _, _, given⟩ := h
  exact Fragment.isValid_of_ofBody given

/-- Whatever is submitted, the reassembler is given parts of valid senders only. -/
theorem hasValidSender_of_mem {activities : List Activity} {op : Operation}
    (h : op ∈ activities.flatMap server.operations) : op.HasValidSender := by
  obtain ⟨activity, _, ho⟩ := List.mem_flatMap.mp h
  cases activity with
  | wait ms =>
    cases List.mem_singleton.mp ho
    trivial
  | request q =>
    obtain ⟨f, submitted, rfl⟩ := List.mem_map.mp ho
    exact isValid_of_submits (submission?_eq_some.mp (Option.mem_toList.mp submitted))

end PartRelay.Http
