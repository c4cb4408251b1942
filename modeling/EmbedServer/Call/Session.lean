/-
A core that takes one call after another, or several at a time.

Calls come in and are looked at in any order, while time passes and the server, its health and the
cancellation go on.  Besides the core there is a record of every call: what it came with, what the
endpoint was then, how far it has come, and when and with what outcome it turned back.  No call
depends on the record.
-/
import EmbedServer.Call.Core

namespace EmbedServer.Call

variable {σ : Type}

/-- When a call turned back, and with which outcome. -/
structure Turned where
  moment : Nat
  outcome : Outcome

/-- The record of a call. -/
structure Taken (σ : Type) where
  context : Context
  request : Request
  /-- The endpoint as it stood when the call arrived. -/
  endpoint : Service
  arrivedAt : Nat
  progress : Progress σ
  turned : Option Turned

/-- What the caller has got. -/
def Taken.result? (k : Taken σ) : Option (Context × Outcome) :=
  match k.progress with
  | .done context o => some (context, o)
  | .waiting _ => none

namespace Core

/-- The outcome of the endpoint for a call that waits, if it is there. -/
def verdict? (c : Core σ) (r : Race σ) : Option Outcome :=
  (r.winner? c.now c.cancel.ready).map fun w => outcomeOf (r.answer c.handler w)

/-- Whether a call that arrives now is admitted to a computation. -/
def admits (c : Core σ) : Request → Bool
  | .predict _ => c.state = .running
  | .check _ => false

/-- What the backend is asked to compute for a call that arrives now. -/
def asked? (c : Core σ) (context : Context) (request : Request) : Option String :=
  match (c.service context request).reached with
  | .answered _ => none
  | .computing chunk => if c.cancel.ready then none else some chunk.content

/-- The outcome with which a call that arrives now turns back at once, if it does. -/
def turning? (c : Core σ) (context : Context) (request : Request) : Option Outcome :=
  match (c.service context request).reached with
  | .answered o => some o
  | .computing chunk =>
    if c.cancel.ready then some (outcomeOf (.error .cancelled))
    else c.verdict? (c.handler.race (c.backend.compute c.compute chunk.content) c.now)

/-- The record of a call that arrives now. -/
def taken (c : Core σ) (context : Context) (request : Request) : Taken σ where
  context := context
  request := request
  endpoint := dispatch c.state c.health
  arrivedAt := c.now
  progress := (c.take context request).2
  turned := (c.turning? context request).map (⟨c.now, ·⟩)

end Core

/-- A core, the calls it has taken, numbered from the first, and what the backend has been asked to
compute. -/
structure Session (σ : Type) where
  core : Core σ
  calls : List (Taken σ)
  texts : List String

namespace Session

/-- What can happen. -/
inductive Op where
  | call (context : Context) (request : Request)
  /-- The call with this number is looked at. -/
  | look (id : Nat)
  | pass (time : Duration)
  /-- Computations under way are cancelled. -/
  | cancel
  | advance (state : Lifecycle.State)
  | publish (key : String) (status : Health.Status)

def new (c : Core σ) : Session σ := ⟨c, [], []⟩

/-- A call comes in. -/
def call (s : Session σ) (context : Context) (request : Request) : Session σ where
  core := (s.core.take context request).1
  calls := s.calls ++ [s.core.taken context request]
  texts := s.texts ++ (s.core.asked? context request).toList

/-- A call is looked at. -/
def look (s : Session σ) (id : Nat) : Session σ :=
  match s.calls[id]? with
  | none => s
  | some k =>
    match k.progress with
    | .done .. => s
    | .waiting p =>
      let (core, progress) := s.core.poll p
      let turned := (s.core.verdict? p.race).map (⟨s.core.now, ·⟩)
      { s with core, calls := s.calls.set id { k with progress, turned } }

def step (s : Session σ) : Op → Session σ
  | .call context request => s.call context request
  | .look id => s.look id
  | .pass time => { s with core := { s.core with now := s.core.now + time.nanos } }
  | .cancel => { s with core := { s.core with cancel := s.core.cancel.fire.2 } }
  | .advance state => { s with core := { s.core with state } }
  | .publish key status => { s with core := s.core.publish key status }

def run (s : Session σ) (ops : List Op) : Session σ := ops.foldl step s

end Session

end EmbedServer.Call
