import PartRelay.Bytes.Memory
import PartRelay.Config.Settings
import PartRelay.Http.Headers
import PartRelay.Http.Target
import PartRelay.Intake
import PartRelay.Text.Blank

/-!
# The server

Answers requests one at a time. Parts are posted to `/api/parts`; `/healthz` tells the part size;
any other route is not found, and any other method on the route for parts is not allowed. Requests
with a line that is too long, or with too many lines, are turned away before that.
-/

namespace PartRelay.Http

/-! ## Requests -/

/-- A word of a request line: bytes of which none is blank. -/
def IsWord (t : Text) : Prop := t ≠ [] ∧ ∀ c ∈ t, c.val < 0x100 ∧ c.isBlank = false

instance (t : Text) : Decidable (IsWord t) := inferInstanceAs (Decidable (_ ∧ _))

/-- A request as it is sent. -/
structure Request where
  method : Text
  target : Text
  headers : List Header := []
  body : Bytes := []
  method_isWord : IsWord method := by decide
  target_isWord : IsWord target := by decide

/-- Method, target and version. -/
def Request.line (r : Request) : Text := Text.join [r.method, " ", r.target, " HTTP/1.1", lineEnd]

/-- The text up to the first empty line of what the headers are written as, and what is behind
it. -/
def Request.cut (r : Request) : Text × Text := cutAtEmptyLine (writeHeaders r.headers) true []

/-- A request as it is received. -/
structure Received where
  headers : List Header
  body : Bytes

/-- What is received: the headers as they are read, and a body that starts behind the first empty
line. -/
def Request.received (r : Request) : Received where
  headers := readHeaders r.cut.1
  body := r.cut.2.map (fun c => UInt8.ofNat c.val) ++ r.body

/-- Why a request is turned away before it is looked at. -/
inductive RequestFault where
  | longRequestLine
  | head (cause : HeadFault)
  deriving DecidableEq

def Request.fault? (r : Request) : Option RequestFault :=
  if r.line.length > lineLimit then some .longRequestLine
  else (headFault? r.cut.1).map .head

/-! ## Responses -/

inductive ContentType where
  | text
  | json
  | html
  deriving DecidableEq

def ContentType.name : ContentType → Text
  | .text => "text/plain; charset=utf-8"
  | .json => "application/json"
  | .html => "text/html;charset=utf-8"

structure Response where
  status : Nat
  contentType : ContentType
  /-- How many bytes the body has, also where it is not sent. -/
  length : Nat
  body : Text

/-- Text is sent with the advice not to guess at its type. -/
def Response.nosniff (r : Response) : Option Text :=
  match r.contentType with
  | .text => some "nosniff"
  | .json | .html => none

/-- A line of text. It is not sent in answer to `HEAD`. -/
def textResponse (r : Request) (status : Nat) (line : Text) : Response :=
  let body := line ++ "\n"
  { status
    contentType := .text
    length := (Utf8.write body).length
    body := if r.method = "HEAD" then [] else body }

/-- A line of JSON. -/
def jsonResponse (status : Nat) (j : Json) : Except Integer.WriteError Response :=
  j.render?.map fun line =>
    let body := Text.join [line, "\n"]
    { status, contentType := .json, length := (Utf8.write body).length, body }

def RequestFault.status : RequestFault → Nat
  | .longRequestLine => 414
  | .head _ => 431

def RequestFault.message : RequestFault → Text
  | .longRequestLine => "Request-URI Too Long"
  | .head .longLine => "Line too long"
  | .head .manyLines => "Too many headers"

def RequestFault.explanation : RequestFault → Text
  | .longRequestLine => "URI is too long"
  | .head .longLine =>
    Text.join ["got more than ", Text.ofNat lineLimit, " bytes when reading header line"]
  | .head .manyLines => Text.join ["got more than ", Text.ofNat countLimit, " headers"]

/-- A page that tells a fault. -/
def RequestFault.page (e : RequestFault) : Text := Text.join
  ["<!DOCTYPE HTML>\n",
   "<html lang=\"en\">\n",
   "    <head>\n",
   "        <meta charset=\"utf-8\">\n",
   "        <title>Error response</title>\n",
   "    </head>\n",
   "    <body>\n",
   "        <h1>Error response</h1>\n",
   "        <p>Error code: ", Text.ofNat e.status, "</p>\n",
   "        <p>Message: ", e.message, ".</p>\n",
   "        <p>Error code explanation: ", Text.ofNat e.status, " - ", e.explanation, ".</p>\n",
   "    </body>\n",
   "</html>\n"]

/-- Whether a page is sent: of a request line that is too long no method is known, in answer to
`HEAD` none is sent. -/
def RequestFault.isSent (r : Request) (e : RequestFault) : Bool :=
  e = .longRequestLine || !(r.method = "HEAD")

/-- The response to a request that is turned away. -/
def faultResponse (r : Request) (e : RequestFault) : Response where
  status := e.status
  contentType := .html
  length := (Utf8.write e.page).length
  body := if e.isSent r then e.page else []

/-! ## Bodies -/

/-- The length that the headers declare; nothing declared is zero. -/
def declaredLength (headers : List Header) : Except Integer.ReadError Int :=
  match header? headers "content-length" with
  | none | some [] => .ok 0
  | some t => Integer.read t

/-- Where bodies are read from. -/
inductive Source where
  /-- A connection. There has to be room for what is asked for before it comes. -/
  | connection (memory : Memory)
  /-- A stream whose bytes are all there. -/
  | atHand

/-- Whether so many bytes can be asked for. -/
def Source.grants : Source → Int → Bool
  | .connection memory, count => memory.grants count
  | .atHand, count => count < Memory.lengthLimit

/-! ## Serving -/

structure Server where
  source : Source
  address : Address
  reassembler : Reassembly.Reassembler
  maxBodyBytes : Int

/-- Why a server cannot be built. -/
inductive BuildError where
  | setup (cause : Reassembly.Reassembler.SetupError)
  | address (cause : Address.ParseError)

def BuildError.message : BuildError → Text
  | .setup cause => cause.message
  | .address cause => cause.message

/-- A server with a store of its own. -/
def build (source : Source) (levels : Json.Levels) (s : Settings) (maxFragmentSize : Int) :
    Except BuildError Server :=
  match Reassembly.Reassembler.create { levels } maxFragmentSize s.partTtlMs with
  | .error e => .error (.setup e)
  | .ok reassembler =>
    match Address.parse s.address with
    | .error e => .error (.address e)
    | .ok address => .ok { source, address, reassembler, maxBodyBytes := s.maxBodyBytes }

def partsRoute : Text := "/api/parts"

def healthRoute : Text := "/healthz"

/-- Why a request has no response. -/
inductive Failure where
  | target (cause : TargetError)
  | refusal (cause : Reassembly.Refusal)
  /-- A length that cannot be asked for. -/
  | length (cause : Memory.Error)
  /-- A number of the response is too long. -/
  | number (cause : Integer.WriteError)
  /-- An event cannot be logged. -/
  | event (cause : Json.WriteError)

def Failure.message : Failure → Text
  | .target cause => cause.message
  | .refusal cause => cause.message
  | .length cause => cause.message
  | .number cause => cause.message
  | .event cause => cause.message

/-- The answer to a method that a route does not serve. -/
def notAllowed (r : Request) (route : Text) : Response :=
  if route = partsRoute then textResponse r 405 "only POST allowed"
  else textResponse r 404 "404 page not found"

/-- The answer to a request whose fragment the intake has taken or refused. -/
def answer (r : Request) (result : Except (Intake.Failure Reassembly.Refusal) Intake.Receipt) :
    Except Failure Response :=
  match result with
  | .ok receipt => (jsonResponse 200 receipt.toJson).mapError .number
  | .error (.rejected (.malformed reason)) =>
    .ok (textResponse r 400 ("invalid payload: " ++ reason))
  | .error (.rejected (.conflict reason)) =>
    .ok (textResponse r 500 ("reassembly failed: " ++ reason))
  | .error (.rejected (.other cause)) => .error (.refusal cause)
  | .error (.unlogged cause) => .error (.event cause)

/-- Takes the fragment in a body in. -/
def postPart (server : Server) (now : Int) (s : Intake.State) (r : Request) (body : Bytes) :
    Except Failure Response × Intake.State :=
  match Fragment.ofRequest r.method body with
  | .error e => (.ok (textResponse r e.status e.message), s)
  | .ok f =>
    let (result, s) := Intake.handle server.reassembler now s f
    (answer r result, s)

/-- The answer to a body that is too long. It says what the limit is. -/
def tooLarge (r : Request) (limit : Int) : Except Failure Response :=
  if Integer.isWritable limit then
    .ok (textResponse r 413 (Text.join ["request body exceeds ", Text.ofInt limit, " bytes"]))
  else .error (.number .tooLong)

/-- Answers a post to the route for parts: the declared length comes first, then the body. -/
def post (server : Server) (now : Int) (s : Intake.State) (r : Request) :
    Except Failure Response × Intake.State :=
  let received := r.received
  match declaredLength received.headers with
  | .error _ => (.ok (textResponse r 400 "invalid Content-Length"), s)
  | .ok length =>
    if length > server.maxBodyBytes then (tooLarge r server.maxBodyBytes, s)
    else if !server.source.grants length then (.error (.length (.ofCount length)), s)
    else postPart server now s r (received.body.take length.toNat)

/-- Answers a request by its route and its method. -/
def dispatch (server : Server) (now : Int) (s : Intake.State) (r : Request) :
    Except Failure Response × Intake.State :=
  match route r.target with
  | .error e => (.error (.target e), s)
  | .ok route =>
    if r.method = "GET" ∧ route = healthRoute then
      ((jsonResponse 200 (.object
        [("status", .string "ok"),
         ("maxFragmentSize", .int server.reassembler.maxFragmentSize)])).mapError .number, s)
    else if r.method = "POST" ∧ route = partsRoute then post server now s r
    else if r.method = "POST" then (.ok (textResponse r 404 "404 page not found"), s)
    else (.ok (notAllowed r route), s)

/-- Answers a request at time `now`. -/
def serve (server : Server) (now : Int) (s : Intake.State) (r : Request) :
    Except Failure Response × Intake.State :=
  match r.fault? with
  | some e => (.ok (faultResponse r e), s)
  | none => dispatch server now s r

end PartRelay.Http
