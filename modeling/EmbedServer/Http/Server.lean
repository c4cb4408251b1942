/-
The server's side of the wire: every request it has taken, and how far it has got with each.

A request is answered at once, waits for its computation, or follows a key.  Those that wait or
follow are looked at again whenever something has happened: the clock has moved, the registry was
written, a signal has fired.  Everything goes on inside one `Server`, on one clock.
-/
import EmbedServer.Call.Core
import EmbedServer.Http.Admission
import EmbedServer.Http.Follow
import EmbedServer.Http.Route

namespace EmbedServer.Http

/-- How far the server has got with a request. -/
inductive Phase (σ : Type) where
  /-- A call waits for its computation. -/
  | waiting (request : Call.Request) (p : Call.Pending σ)
  /-- A stream goes on; it was last heard at `heard`. -/
  | following (f : Follow) (heard : Nat)
  | complete
  /-- The caller went away. -/
  | dropped

/-- A request and its answer so far. -/
structure Exchange (σ : Type) where
  /-- Whether the caller asked for the headers only. -/
  headOnly : Bool
  phase : Phase σ
  /-- The status and the headers, once the response has begun. -/
  head : Option (Status × List (String × String))
  /-- What has been sent of the body. -/
  sent : String

structure Server (σ : Type) where
  core : Call.Core σ
  limit : Limit
  /-- Fires when no more calls are taken. -/
  draining : Cancellation.Signal
  /-- All requests, in the order in which they came. -/
  exchanges : List (Exchange σ)

namespace Server

variable {σ : Type}

def new (core : Call.Core σ) (limit : Limit) : Server σ := ⟨core, limit, .new, []⟩

/-- Puts an exchange in the place of another. -/
def put (s : Server σ) (i : Nat) (e : Exchange σ) : Server σ :=
  { s with exchanges := s.exchanges.set i e }

/-! ### Streams -/

/-- Looks at a stream: what has come goes out; if nothing has come for long enough, a comment. -/
def followUp (s : Server σ) (e : Exchange σ) (f : Follow) (heard : Nat) : Exchange σ :=
  let (statuses, f) := f.take s.core.health s.draining.ready
  let sent := e.sent ++ String.join (statuses.map Follow.event)
  if f.isOver then { e with sent, phase := .complete }
  else if !statuses.isEmpty then { e with sent, phase := .following f s.core.now }
  else if heard + Follow.silence.nanos ≤ s.core.now then
    { e with sent := sent ++ Follow.comment, phase := .following f s.core.now }
  else { e with sent, phase := .following f heard }

/-! ### Responses -/

/-- The exchange with a response. -/
def respond (s : Server σ) (e : Exchange σ) (r : Response) : Exchange σ :=
  let r := if e.headOnly then r.headOnly else r
  let e := { e with head := some (r.status, r.headers) }
  match r.content with
  | .whole text => { e with sent := text, phase := .complete }
  | .following key => s.followUp e (.start s.core.health key) s.core.now

/-! ### Requests -/

/-- What the server makes of a request before any call is made. -/
inductive Reading where
  | respond (r : Response)
  /-- The response, what it has to be logged with, and whether it counts as an error. -/
  | refuse (method : String) (why : Rejection)
  | call (request : Call.Request)

/-- A decoded body is a call; any other is refused. -/
def readCall {α : Type} (r : Request) (limit : Limit) (shape : Json.Reader α) (method : String)
    (request : α → Call.Request) : Reading :=
  match r.readBody limit shape with
  | .ok a => .call (request a)
  | .error why => .refuse method why

/-- What the server makes of a request to a place that takes its method. -/
def readAt (s : Server σ) (r : Request) : Route → Reading
  | .predict => readCall r s.limit Call.Chunk.shape Call.predictPath .predict
  | .check => readCall r s.limit Call.HealthQuery.shape Call.checkPath .check
  | .watch =>
    match queryKey? r.target with
    | some key => .respond (.events key)
    | none =>
      .respond (.plain 400 ("Failed to deserialize query string: "
        ++ (Schema.Mismatch.duplicate "service").describe Decimal.json))
  | .probeAll => .respond (probed s.core.health "")
  | .probe part =>
    match pathKey? part with
    | some key => .respond (probed s.core.health key)
    | none => .respond (.plain 400 "Invalid URL: Invalid UTF-8 in `service`")
  | .metrics => .respond (.plain 200 (s.core.metrics.exposition ((Duration.mk s.core.now).secs)))

/-- What the server makes of a request. -/
def read (s : Server σ) (r : Request) : Reading :=
  if r.declaresTooMuch s.limit then .respond (.plain 413 "length limit exceeded")
  else match Route.ofPath? r.target.path with
    | none => .respond (.empty 404 [])
    | some route =>
      if route.takes r.method then s.readAt r route
      else .respond (.empty 405 [("allow", route.allowed)])

/-- What is left behind by a refusal. -/
def refusalEffects (method : String) (why : Rejection) : List Call.Effect :=
  [.log ⟨.transport, .warn, "Rejected malformed request: " ++ why.message,
      [("method", .text method)]⟩,
    .sample .error]

/-- Takes a request. -/
def receive (s : Server σ) (r : Request) : Server σ :=
  let e : Exchange σ := ⟨r.method == "HEAD", .complete, none, ""⟩
  let add (s : Server σ) (e : Exchange σ) : Server σ := { s with exchanges := s.exchanges ++ [e] }
  match s.read r with
  | .respond response =>
    let e' := s.respond e response
    match response.content with
    | .following key =>
      add { s with core := s.core.logAll (Health.Watch.startEvents s.core.health key) } e'
    | .whole _ => add s e'
  | .refuse method why =>
    let s := { s with core := s.core.applyAll (refusalEffects method why) }
    add s (s.respond e (.ofError ⟨.invalidArgument, why.message⟩))
  | .call request =>
    match s.core.take ⟨request.method, r.metadata⟩ request with
    | (core, .done _ o) =>
      let s := { s with core }
      add s (s.respond e (responseTo request o))
    | (core, .waiting p) => add { s with core } { e with phase := .waiting request p }

/-! ### Looking again -/

/-- Looks at the request with this number again. -/
def look (s : Server σ) (i : Nat) : Server σ :=
  match s.exchanges[i]? with
  | none => s
  | some e =>
    match e.phase with
    | .waiting request p =>
      match s.core.poll p with
      | (core, .waiting _) => { s with core }
      | (core, .done _ o) =>
        let s := { s with core }
        s.put i (s.respond e (responseTo request o))
    | .following f heard => s.put i (s.followUp e f heard)
    | .complete | .dropped => s

/-- The numbers of the calls that are due, with the moments at which they were. -/
def due (s : Server σ) : List (Nat × Nat) :=
  s.exchanges.zipIdx.filterMap fun (e, i) =>
    match e.phase with
    | .waiting _ p =>
      if p.race.nextMoment ≤ s.core.now then some (p.race.nextMoment, i) else none
    | _ => none

/-- The order in which requests are looked at: those that are due by the moment at which they were,
then the others. -/
def order (s : Server σ) : List Nat :=
  let due := (s.due.mergeSort fun a b => a.1 ≤ b.1).map Prod.snd
  due ++ (List.range s.exchanges.length).filter (!due.contains ·)

/-- Looks at every request again. -/
def settle (s : Server σ) : Server σ := s.order.foldl look s

/-- Takes a request, and does whatever can be done after that. -/
def take (s : Server σ) (r : Request) : Server σ := (s.receive r).settle

/-- Lets the clock jump to a moment, and does whatever can be done then. -/
def jumpTo (s : Server σ) (t : Nat) : Server σ :=
  { s with core := { s.core with now := max s.core.now t } }.settle

/-- Fires the signal that no more calls are taken; the answer tells whether this was the first
time. -/
def drain (s : Server σ) : Bool × Server σ :=
  let (first, draining) := s.draining.fire
  (first, { s with draining })

/-- Cancels all computations; the answer tells whether this was the first time. -/
def cancelAll (s : Server σ) : Bool × Server σ :=
  let (first, cancel) := s.core.cancel.fire
  (first, { s with core := { s.core with cancel } })

/-- The caller with this number goes away.  A call that waits is given up. -/
def abort (s : Server σ) (i : Nat) : Server σ :=
  match s.exchanges[i]? with
  | none => s
  | some e =>
    let gone : Exchange σ := { e with phase := .dropped }
    match e.phase with
    | .waiting _ _ => { s.put i gone with core := s.core.abandon }
    | .following _ _ => s.put i gone
    | .complete | .dropped => s

/-- The next moment at which a call may be done without anything else happening. -/
def nextMoment (s : Server σ) : Option Nat :=
  (s.exchanges.filterMap fun e =>
    match e.phase with
    | .waiting _ p => some p.race.nextMoment
    | _ => none).min?

/-- Whether nothing is under way. -/
def isIdle (s : Server σ) : Bool :=
  s.exchanges.all fun e =>
    match e.phase with
    | .complete | .dropped => true
    | .waiting _ _ | .following _ _ => false

/-- Whether the server is done: no more calls are taken, and nothing is under way. -/
def isDrained (s : Server σ) : Bool := s.draining.ready && s.isIdle

end Server

/-- Whether the answer is complete. -/
def Exchange.isComplete {σ : Type} (e : Exchange σ) : Bool :=
  match e.phase with
  | .complete => true
  | _ => false

/-- The answer as a client gets it, once it is complete. -/
def Exchange.received? {σ : Type} (e : Exchange σ) : Option Received :=
  if e.isComplete then e.head.map fun (status, _) => ⟨status, Utf8.encode e.sent⟩ else none

/-- The request that a posting makes on the server's side. -/
def Posting.toRequest (p : Posting) : Option Request :=
  let header (name value : String) : Header := (name, Utf8.encode value)
  Request.read? "POST" p.url.target
    ([header "content-type" "application/json"]
      ++ (p.authorization.map (header "authorization")).toList
      ++ [header "accept" "*/*", header "host" (p.url.host ++ ":" ++ toString p.url.port),
        header "content-length" (toString p.body.utf8ByteSize)])
    [Utf8.encode p.body]

end EmbedServer.Http
