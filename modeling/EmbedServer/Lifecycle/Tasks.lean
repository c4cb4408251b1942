/-
A started server as its tasks go about it, one turn at a time.

`Running` has one fixed order in which everybody gets a turn.  Here the order is open: a turn belongs
to the task of a request, to the transport, to the supervisor, to somebody who asks for a stop or
writes the registry, or to the clock, and any list of turns is a run.  A turn that does not make sense
where it comes changes nothing.

The supervisor wakes, decides on what to do until it waits again, and does it act by act, so that
others may come in between.  Whoever asks for a stop first says so in one turn and hands the request
to the supervisor in another.

Besides the server there is a record of what has happened: when the stop was taken up and why, what
the supervisor has done, what was answered to whom.  No turn depends on the record.

Runs of a particular kind are those whose every turn is allowed where it comes: `isWhole`,
`isServed`, `isPunctual` and `isPrompt` say what may be asked of a turn.
-/
import EmbedServer.Http.Event
import EmbedServer.Lifecycle.Running

namespace EmbedServer

namespace Http

variable {σ : Type}

/-- The call that waits for its computation, with its request. -/
def Exchange.pending? (e : Exchange σ) : Option (Call.Request × Call.Pending σ) :=
  match e.phase with
  | .waiting request p => some (request, p)
  | .following .. | .complete | .dropped => none

namespace Server

/-- The outcome of the call that a request makes, if it is answered at once. -/
def outcomeOf? (s : Server σ) (r : Request) : Option Call.Outcome :=
  match s.read r with
  | .call request =>
    match (s.core.take ⟨request.method, r.metadata⟩ request).2 with
    | .done _ o => some o
    | .waiting _ => none
  | .respond _ | .refuse .. => none

/-- Whether the backend begins a computation for a request that arrives now. -/
def begins (s : Server σ) (r : Request) : Bool :=
  match s.read r with
  | .call request =>
    match (s.core.service ⟨request.method, r.metadata⟩ request).reached with
    | .computing _ => !s.core.cancel.ready
    | .answered _ => false
  | .respond _ | .refuse .. => false

/-- The call that waits under a number for its computation, with its request. -/
def pending? (s : Server σ) (id : Nat) : Option (Call.Request × Call.Pending σ) :=
  s.exchanges[id]?.bind Exchange.pending?

/-- The numbers of the calls whose computations are in progress. -/
def computing (s : Server σ) : List Nat :=
  (List.range s.exchanges.length).filter fun id => (s.pending? id).isSome

/-- The outcome that the next look at a request brings its call, if it brings one. -/
def outcomeAt? (s : Server σ) (id : Nat) : Option Call.Outcome :=
  match s.pending? id with
  | none => none
  | some (_, p) =>
    match (s.core.poll p).2 with
    | .done _ o => some o
    | .waiting _ => none

/-- Whether the task of a request has something to do. -/
def isReady (s : Server σ) (e : Exchange σ) : Bool :=
  match e.phase with
  | .waiting _ p => (p.race.winner? s.core.now s.core.cancel.ready).isSome
  | .following f _ => (f.poll s.core.health s.draining.ready).1 != .pending
  | .complete | .dropped => false

end Server

end Http

namespace Lifecycle

/-- Whether others notice an act of a stop. -/
def Act.isMilestone : Act → Bool
  | .advance _ | .freeze | .drain | .cancel | .close => true
  | .publish .. | .note _ | .exceed .. | .abort | .closed => false

/-- Somebody's turn. -/
inductive Turn where
  /-- A request reaches the server. -/
  | receive (r : Http.Request)
  /-- The task of the request with this number runs until it waits again. -/
  | look (id : Nat)
  /-- The caller with this number goes away. -/
  | leave (id : Nat)
  | pass (time : Duration)
  /-- Somebody sets the status of a key. -/
  | publish (key : String) (status : Health.Status)
  /-- Somebody sets the status of every key. -/
  | publishAll (status : Health.Status)
  /-- Somebody logs an event. -/
  | note (e : Log.Event)
  /-- Somebody asks for a stop. -/
  | trigger (drain : Duration)
  /-- Whoever asked first hands the request on. -/
  | send
  /-- One more can ask for a stop. -/
  | retain
  /-- One less can ask for a stop. -/
  | release
  /-- The transport ends. -/
  | finish
  /-- The supervisor wakes; `exitFirst` says that it asks for the end of the transport before it asks
  for a request. -/
  | wake (exitFirst : Bool)
  /-- The supervisor does the next thing that it has decided on. -/
  | act

/-- The drain timeout that somebody asks for. -/
def Turn.asked? : Turn → Option Duration
  | .trigger drain => some drain
  | _ => none

/-- An answer to a call. -/
structure Answered where
  moment : Nat
  id : Nat
  outcome : Call.Outcome

/-- A started server between two turns. -/
structure Tasks (σ : Type) extends Running σ where
  /-- When the transport ended, if it has. -/
  endedAt : Option Nat
  /-- The request of whoever asked first, until it is handed on. -/
  sending : Option Duration
  /-- What the supervisor has decided on and not done yet. -/
  todo : List Act
  /-- When the supervisor took up the stop, and what made it. -/
  taken : Option (Nat × Cue)
  /-- How long the backend takes to let go, once the supervisor has decided to close it. -/
  letGo : Option (Option Duration)
  /-- What the supervisor has done, and when; the latest last. -/
  done : List (Nat × Act)
  /-- What those who asked for a stop were told; the latest last. -/
  outcomes : List StopOutcome
  /-- What calls were answered; the latest last. -/
  answers : List Answered

/-- A server that has just been started. -/
def Running.tasks {σ : Type} (r : Running σ) : Tasks σ where
  toRunning := r
  endedAt := none
  sending := none
  todo := []
  taken := none
  letGo := none
  done := []
  outcomes := []
  answers := []

namespace Tasks

variable {σ : Type}

/-- What the supervisor sees when it wakes. -/
def sight (t : Tasks σ) (exitFirst : Bool) : Sight :=
  let exited := if t.endedAt.isSome then some Cue.exited else none
  { t.toRunning.sight with
    cue := if exitFirst then exited.or t.cue else t.cue.or exited
    transportDone := t.endedAt.isSome }

/-- The supervisor wakes, unless it is in the middle of something. -/
def wake (t : Tasks σ) (exitFirst : Bool) : Tasks σ :=
  match t.todo, t.stage.step t.grace (t.sight exitFirst) with
  | [], some (acts, stage) =>
    { t with
      stage
      request := none
      todo := acts
      taken := t.taken.or ((t.sight exitFirst).cue.map (t.now, ·))
      letGo := if .close ∈ acts then some (t.sight exitFirst).closing else t.letGo }
  | _, _ => t

/-- The supervisor does one thing. -/
def act (t : Tasks σ) : Tasks σ :=
  match t.todo with
  | [] => t
  | a :: rest =>
    { t with wire := Act.apply t.wire a, todo := rest, done := t.done ++ [(t.now, a)] }

/-- Somebody asks for a stop. -/
def ask (t : Tasks σ) (drain : Duration) : Tasks σ :=
  match t.claim with
  | (.initiated, r) =>
    { t with toRunning := r, sending := some drain, outcomes := t.outcomes ++ [.initiated] }
  | (.alreadyStopping, r) =>
    { t with toRunning := r, outcomes := t.outcomes ++ [.alreadyStopping] }

/-- Whoever asked first hands the request on.  A supervisor that is in the middle of something still
takes it, and forgets it. -/
def send (t : Tasks σ) : Tasks σ :=
  match t.sending, t.todo with
  | none, _ => t
  | some drain, [] => { t with toRunning := t.hand drain, sending := none }
  | some _, _ :: _ => { t with sending := none }

/-- Records an answer. -/
def answer (t : Tasks σ) (id : Nat) (o : Option Call.Outcome) : List Answered :=
  t.answers ++ (o.map (⟨t.now, id, ·⟩)).toList

/-- The server after a turn. -/
def step (t : Tasks σ) : Turn → Tasks σ
  | .receive r =>
    { t with
      wire := t.wire.receive r
      answers := t.answer t.wire.exchanges.length (t.wire.outcomeOf? r) }
  | .look id => { t with wire := t.wire.look id, answers := t.answer id (t.wire.outcomeAt? id) }
  | .leave id => { t with wire := t.wire.abort id }
  | .pass time => { t with wire := t.wire.meet (.pass time) }
  | .publish key status => { t with wire := t.wire.meet (.publish key status) }
  | .publishAll status => { t with wire := t.wire.meet (.publishAll status) }
  | .note e => { t with toRunning := t.toRunning.note e }
  | .trigger drain => t.ask drain
  | .send => t.send
  | .retain => { t with toRunning := t.toRunning.retain }
  | .release => { t with toRunning := t.toRunning.release }
  | .finish => { t with endedAt := t.endedAt.or (some t.now) }
  | .wake exitFirst => t.wake exitFirst
  | .act => t.act

/-- The server after a run. -/
def run (t : Tasks σ) (turns : List Turn) : Tasks σ := turns.foldl step t

/-! ### What may be asked of a turn -/

/-- Whether every turn of a run is allowed where it comes. -/
def follows (allowed : Tasks σ → Turn → Bool) : Tasks σ → List Turn → Bool
  | _, [] => true
  | t, u :: rest => allowed t u && follows allowed (t.step u) rest

/-- Nobody comes in between what the supervisor does from one wait to the next. -/
def isWhole (t : Tasks σ) : Turn → Bool
  | .act => true
  | _ => t.todo.isEmpty

/-- The transport ends only once it is drained. -/
def isServed (t : Tasks σ) : Turn → Bool
  | .finish => t.wire.isDrained
  | _ => true

/-- Whether the supervisor has nothing to do at this moment. -/
def rests (t : Tasks σ) : Bool :=
  t.todo.isEmpty && (t.stage.step t.grace (t.sight false)).isNone

/-- The clock waits for the supervisor. -/
def isPunctual (t : Tasks σ) : Turn → Bool
  | .pass time => t.rests && t.stage.nextMoment.all (t.now + time.nanos ≤ ·)
  | _ => true

/-- Whether nobody has anything to do at this moment. -/
def isQuiet (t : Tasks σ) : Bool :=
  t.rests && t.wire.exchanges.all (!t.wire.isReady ·) && (t.endedAt.isSome || !t.wire.isDrained)

/-- The clock waits for everybody, and no caller goes away. -/
def isPrompt (t : Tasks σ) : Turn → Bool
  | .pass time =>
    t.isQuiet && t.stage.nextMoment.all (t.now + time.nanos ≤ ·)
      && t.wire.nextMoment.all (t.now + time.nanos ≤ ·)
  | .leave _ => false
  | u => t.isWhole u && t.isServed u

/-! ### What a run shows -/

/-- Whether the backend begins a computation in a turn. -/
def begins (t : Tasks σ) : Turn → Bool
  | .receive r => t.wire.begins r
  | _ => false

/-- Whether this is what the supervisor does next. -/
def isAbout (t : Tasks σ) (a : Act) : Bool := t.todo.head? = some a

/-- What others have noticed of a stop so far, in order. -/
def milestones (t : Tasks σ) : List Act := (t.done.map Prod.snd).filter Act.isMilestone

end Tasks

end Lifecycle

end EmbedServer
