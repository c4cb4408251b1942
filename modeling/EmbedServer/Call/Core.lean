/-
The part of a server that takes calls: stages, endpoint and backend, with everything they read and
write, on one clock.

A call that asks for a computation is left pending; it is looked at again whenever the clock or the
cancellation has moved.
-/
import EmbedServer.Call.Dispatch
import EmbedServer.Call.Race
import EmbedServer.Cancellation

namespace EmbedServer.Call

/-- Everything that calls read and write. -/
structure Core (σ : Type) where
  stages : List Stage
  handler : Handler
  backend : Backend σ
  /-- The state of the backend. -/
  compute : σ
  health : Health.Registry
  metrics : Metrics.Collector
  state : Lifecycle.State
  cancel : Cancellation.Signal
  /-- The present moment, in nanoseconds. -/
  now : Nat
  /-- The events logged so far, the latest last. -/
  log : List Log.Event
  /-- The trace so far, the latest line last. -/
  trace : List String

/-- A call that waits for its computation. -/
structure Pending (σ : Type) where
  arrivedAt : Nat
  race : Race σ
  leave : Duration → Outcome → Returned

/-- A call that has its outcome, or waits. -/
inductive Progress (σ : Type) where
  | done (context : Context) (outcome : Outcome)
  | waiting (p : Pending σ)

namespace Core

variable {σ : Type}

/-- A core at the beginning of its clock. -/
def new (stages : List Stage) (handler : Handler) (backend : Backend σ) (compute : σ)
    (health : Health.Registry) : Core σ where
  stages := stages
  handler := handler
  backend := backend
  compute := compute
  health := health
  metrics := .empty
  state := .running
  cancel := .new
  now := 0
  log := []
  trace := []

/-- One effect. -/
def apply (c : Core σ) : Effect → Core σ
  | .log e => { c with log := c.log ++ [e] }
  | .trace line => { c with trace := c.trace ++ [line] }
  | .sample s => { c with metrics := c.metrics.record s }

/-- Effects in order. -/
def applyAll (c : Core σ) (fx : List Effect) : Core σ := fx.foldl apply c

/-- Events in order. -/
def logAll (c : Core σ) (events : List Log.Event) : Core σ := { c with log := c.log ++ events }

/-- Sets the status of a key, and notes it. -/
def publish (c : Core σ) (key : String) (status : Health.Status) : Core σ :=
  { c with health := c.health.set key status }.logAll [c.health.setEvent key status]

/-- The stages around the endpoint, as things stand now. -/
def service (c : Core σ) : Service := compose c.stages (dispatch c.state c.health)

/-- The way back of a call. -/
def finish (c : Core σ) (arrivedAt : Nat) (leave : Duration → Outcome → Returned) (o : Outcome) :
    Core σ × Progress σ :=
  let b := leave ⟨c.now - arrivedAt⟩ o
  (c.applyAll b.effects, .done b.context b.outcome)

/-- The end of a race: the answer is counted and logged, and the call takes its way back. -/
def conclude (c : Core σ) (startedAt : Nat) (arrivedAt : Nat)
    (leave : Duration → Outcome → Returned) (a : Backend.Answer) : Core σ × Progress σ :=
  (c.applyAll (c.handler.closing ⟨c.now - startedAt⟩ a)).finish arrivedAt leave (outcomeOf a)

/-- Looks at a waiting call. -/
def poll (c : Core σ) (p : Pending σ) : Core σ × Progress σ :=
  match p.race.winner? c.now c.cancel.ready with
  | none => (c, .waiting p)
  | some w =>
    let c := match w with
      | .computation =>
        { c with compute := p.race.computation.settle c.compute }.logAll
          p.race.computation.finalEvents
      | _ => c
    c.conclude p.race.startedAt p.arrivedAt p.leave (p.race.answer c.handler w)

/-- Takes a call. -/
def take (c : Core σ) (context : Context) (request : Request) : Core σ × Progress σ :=
  let course := c.service context request
  let arrivedAt := c.now
  let c := c.applyAll course.effects
  match course.reached with
  | .answered o => c.finish arrivedAt course.leave o
  | .computing chunk =>
    let c := c.applyAll (Handler.opening c.backend.name chunk)
    if c.cancel.ready then c.conclude c.now arrivedAt course.leave (.error .cancelled)
    else
      let computation := c.backend.compute c.compute chunk.content
      let c := { c with compute := computation.begun }.logAll computation.events
      c.poll ⟨arrivedAt, c.handler.race computation c.now, course.leave⟩

/-- Gives up a waiting call: it is no longer in flight, and nobody takes its way back. -/
def abandon (c : Core σ) : Core σ := c.apply (.sample .finished)

/-- Takes a call and lets the clock run until it has its outcome. -/
def takeToEnd (c : Core σ) (context : Context) (request : Request) :
    Core σ × Context × Option Outcome :=
  match c.take context request with
  | (c, .done context o) => (c, context, some o)
  | (c, .waiting p) =>
    match { c with now := max c.now p.race.nextMoment }.poll p with
    | (c, .done context o) => (c, context, some o)
    | (c, .waiting _) => (c, context, none)

end Core

end EmbedServer.Call
