/-
A server that has been started, with its supervisor.

Time passes from one moment at which something is due to the next.  At each of them the calls have
their turn first and the supervisor after them; whatever the supervisor does gives the calls another
turn before it is looked at again.
-/
import EmbedServer.Lifecycle.Start
import EmbedServer.Lifecycle.Stop

namespace EmbedServer.Lifecycle

/-- A server before it is started. -/
structure Blueprint (σ : Type) where
  core : Call.Core σ
  limit : Http.Limit
  /-- The keys under which the running server reports that it serves. -/
  healthKeys : List String
  /-- What it reports instead under some of them. -/
  overrides : List (String × Health.Status)
  graceMargin : Duration

/-- A server that has been started. -/
structure Running (σ : Type) where
  wire : Http.Server σ
  address : Net.SocketAddress
  grace : Duration
  stage : Stage
  /-- Whether a stop has been requested. -/
  requested : Bool
  /-- The request that the supervisor has not taken yet. -/
  request : Option Duration
  /-- How many there are who can request a stop. -/
  handles : Nat

/-- What a request to stop comes to. -/
inductive StopOutcome where
  | initiated
  | alreadyStopping
  deriving DecidableEq, Repr

def StopOutcome.name : StopOutcome → String
  | .initiated => "Initiated"
  | .alreadyStopping => "AlreadyStopping"

namespace Blueprint

variable {σ : Type}

/-- The server before its start: nothing has been gone through, and nothing is cancelled. -/
def fresh (b : Blueprint σ) : Http.Server σ :=
  .new { b.core with state := .created, cancel := .new } b.limit

/-- The server after the acts of a start. -/
def started (b : Blueprint σ) (binding : Binding) : Http.Server σ :=
  Act.applyAll b.fresh (startActs b.core.stages b.healthKeys b.overrides binding)

/-- The server once it runs at an address. -/
def running (b : Blueprint σ) (a : Net.SocketAddress) : Running σ :=
  ⟨b.started (.bound a), a, b.graceMargin, .serving, false, none, 1⟩

/-- Starts a server.  If that fails, the core is what is left of it. -/
def start (b : Blueprint σ) (m : Net.Machine) (address : String) :
    Except (StartupError × Call.Core σ) (Running σ) :=
  match bind m address with
  | .failed e => .error (e, (b.started (.failed e)).core)
  | .nameless e => .error (e, (b.started (.nameless e)).core)
  | .bound a => .ok (b.running a)

end Blueprint

namespace Running

variable {σ : Type}

def state (r : Running σ) : State := r.wire.core.state

def now (r : Running σ) : Nat := r.wire.core.now

/-- What makes the supervisor stop the server now. -/
def cue (r : Running σ) : Option Cue :=
  match r.request with
  | some d => some (.request d)
  | none => if r.handles = 0 then some .abandoned else none

/-- What the supervisor sees. -/
def sight (r : Running σ) : Sight where
  now := r.now
  cue := r.cue
  transportDone := r.wire.isDrained
  inFlight := r.wire.core.metrics.inFlight.toNat
  backend := r.wire.core.backend.name
  closing := (r.wire.core.backend.close r.wire.core.compute).takes

/-- Lets the supervisor and the calls take turns until there is nothing left to do at this moment;
`fuel` bounds the supervisor's steps. -/
def act (r : Running σ) : (fuel : Nat) → Running σ
  | 0 => r
  | fuel + 1 =>
    match r.stage.step r.grace r.sight with
    | none => r
    | some (acts, stage) =>
      act { r with wire := (Act.applyAll r.wire acts).settle, stage, request := none } fuel

/-- Everything that can be done at this moment.  From any stage, four steps are enough. -/
def settle (r : Running σ) : Running σ := { r with wire := r.wire.settle }.act 4

/-- Lets the clock jump to a moment, and does everything that can be done then. -/
def jumpTo (r : Running σ) (t : Nat) : Running σ := { r with wire := r.wire.jumpTo t }.act 4

/-- The next moment at which something is due. -/
def nextMoment (r : Running σ) : Option Nat :=
  match r.wire.nextMoment, r.stage.nextMoment with
  | some a, some b => some (min a b)
  | some a, none => some a
  | none, b => b

/-- Lets time pass until `p` holds or nothing more is due; `fuel` bounds the moments. -/
def runUntil (p : Running σ → Bool) : (fuel : Nat) → Running σ → Running σ
  | 0, r => r
  | fuel + 1, r =>
    if p r then r
    else match r.nextMoment with
      | some t => runUntil p fuel (r.jumpTo t)
      | none => r

/-- How many moments there can be from now on: each ends a call or one of the supervisor's waits. -/
def moments (r : Running σ) : Nat := r.wire.exchanges.length + 5

/-- Lets time pass until `p` holds. -/
def await (r : Running σ) (p : Running σ → Bool) : Running σ := r.runUntil p r.moments

/-- Lets this much time pass. -/
def sleep (r : Running σ) (d : Duration) : Running σ :=
  let t := r.now + d.nanos
  (r.await fun r => r.nextMoment.all (t < ·)).jumpTo t

/-- Whether whoever waits for the end of the server need not wait any longer. -/
def isOver (r : Running σ) : Bool := r.state = .stopped || r.stage = .lost

/-- Lets time pass until the server has stopped. -/
def awaitTermination (r : Running σ) : Running σ := r.await isOver

/-! ### Requests to stop -/

/-- Logs an event. -/
def note (r : Running σ) (e : Log.Event) : Running σ :=
  { r with wire := Act.apply r.wire (.note e) }

/-- Notes that a stop is requested; the answer tells whether this was the first time. -/
def claim (r : Running σ) : StopOutcome × Running σ :=
  if r.requested then
    (.alreadyStopping, r.note (.plain .lifecycle .debug "Stop already requested"))
  else (.initiated, { r with requested := true })

/-- Hands the first request to the supervisor, which takes one only while it has nothing to do. -/
def hand (r : Running σ) (drain : Duration) : Running σ :=
  match r.stage with
  | .serving => { r with request := some drain }
  | .finished | .lost =>
    r.note (.plain .lifecycle .warn "Stop requested after the supervisor exited")
  | .draining .. | .cancelling .. | .closing .. => r

/-- Requests a stop.  Only the first request counts. -/
def trigger (r : Running σ) (drain : Duration) : StopOutcome × Running σ :=
  match r.claim with
  | (.initiated, r) => (.initiated, r.hand drain)
  | (.alreadyStopping, r) => (.alreadyStopping, r)

/-- Requests a stop and waits for its end if this was the first request. -/
def requestStop (r : Running σ) (drain : Duration) : StopOutcome × Running σ :=
  match r.trigger drain with
  | (.initiated, r) => (.initiated, r.settle.awaitTermination)
  | (.alreadyStopping, r) => (.alreadyStopping, r.settle)

/-- One more can request a stop. -/
def retain (r : Running σ) : Running σ := { r with handles := r.handles + 1 }

/-- One less can request a stop. -/
def release (r : Running σ) : Running σ := { r with handles := r.handles - 1 }

/-- Turns a signal into a request to stop. -/
def signal (r : Running σ) (name : String) (drain : Duration) : Running σ :=
  let (outcome, r) := r.trigger drain
  let message := match outcome with
    | .initiated => "Received " ++ name ++ ", starting graceful shutdown (drain " ++ drain.text ++ ")"
    | .alreadyStopping => "Received " ++ name ++ ", shutdown already in progress"
  r.note (.plain .signals .info message)

/-! ### Calls over the wire -/

/-- Whether connections are accepted. -/
def accepts (r : Running σ) : Bool := !r.wire.draining.ready

/-- Takes a posting; the answer is the number of the request, if it arrives. -/
def post (r : Running σ) (p : Http.Posting) : Option Nat × Running σ :=
  if r.accepts then
    match p.toRequest with
    | some q => (some r.wire.exchanges.length, { r with wire := r.wire.take q })
    | none => (none, r)
  else (none, r)

/-- What has come back for a request. -/
def received? (r : Running σ) (id : Nat) : Option Http.Received :=
  r.wire.exchanges[id]?.bind Http.Exchange.received?

/-- Lets time pass until a request is answered. -/
def awaitAnswer (r : Running σ) (id : Nat) : Option Http.Received × Running σ :=
  let r := r.await fun r => (r.received? id).isSome
  (r.received? id, r)

/-- The server as a client knows it: it answers before anything else is sent. -/
def peer : Http.Peer (Running σ) where
  answer r p :=
    match r.post p with
    | (some id, r) =>
      let (a, r) := r.awaitAnswer id
      (r, a)
    | (none, r) => (r, none)

end Running

end EmbedServer.Lifecycle
