/-
A computation against its deadline and a cancellation.

At every moment the cancellation is looked at first, then the computation, then the deadline; the
first of them found is the end of the race.  A race that is cancelled before it starts does not begin
the computation at all.  Moments are nanoseconds of one clock.
-/
import EmbedServer.Backend.Basic
import EmbedServer.Call.Effect
import EmbedServer.Call.Message

namespace EmbedServer.Call

open Backend (Answer)

/-- How computations are run. -/
structure Handler where
  /-- The most time a computation gets. -/
  timeout : Duration
  /-- Whether the time it took is counted. -/
  counted : Bool
  deriving DecidableEq, Repr

/-- A race under way. -/
structure Race (σ : Type) where
  startedAt : Nat
  /-- When the computation ends; `none` if it never does. -/
  endsAt : Option Nat
  deadline : Nat
  computation : Backend.Computation σ

/-- Who won. -/
inductive Race.Winner where
  | cancellation
  | computation
  | deadline
  deriving DecidableEq, Repr

namespace Race

variable {σ : Type}

/-- The winner at a moment, if there is one yet. -/
def winner? (r : Race σ) (now : Nat) (cancelled : Bool) : Option Winner :=
  if cancelled then some .cancellation
  else if r.endsAt.any (· ≤ now) then some .computation
  else if r.deadline ≤ now then some .deadline
  else none

/-- The next moment at which there may be a winner without a cancellation. -/
def nextMoment (r : Race σ) : Nat :=
  match r.endsAt with
  | some t => min t r.deadline
  | none => r.deadline

/-- The answer that the winner stands for. -/
def answer (r : Race σ) (h : Handler) : Winner → Answer
  | .cancellation => .error .cancelled
  | .computation => r.computation.answer
  | .deadline => .error (.timeout h.timeout)

end Race

/-- What a caller sees of an answer. -/
def outcomeOf : Answer → Outcome
  | .ok vec => .ok (.embedding ⟨vec⟩)
  | .error e => .error (.ofBackend e)

/-- The progress of a call, as the log tells it. -/
inductive Stadium where
  | received
  | dispatched
  | completed
  | failed
  | cancelled
  deriving DecidableEq, Repr

namespace Stadium

def name : Stadium → String
  | .received => "Received"
  | .dispatched => "Dispatched"
  | .completed => "Completed"
  | .failed => "Failed"
  | .cancelled => "Cancelled"

/-- The last stadium of a call with this answer. -/
def ofAnswer : Answer → Stadium
  | .ok _ => .completed
  | .error .cancelled => .cancelled
  | .error _ => .failed

/-- An event that tells a stadium. -/
def event (s : Stadium) (fields : List (String × Log.Value)) : Effect :=
  .log ⟨.handler, .debug, "predict", ("state", .shown s.name) :: fields⟩

end Stadium

namespace Handler

/-- What is left behind before a computation begins. -/
def opening (backend : String) (chunk : Chunk) : List Effect :=
  [Stadium.received.event [("bytes", .whole chunk.content.utf8ByteSize),
      ("path", .shown (Text.quotedOption chunk.path))],
    Stadium.dispatched.event [("backend", .text backend)]]

/-- What is left behind when a computation has its answer, that long after it was asked for. -/
def closing (h : Handler) (elapsed : Duration) (a : Answer) : List Effect :=
  (if h.counted then [.sample (.backend elapsed)] else []) ++ [(Stadium.ofAnswer a).event []]

/-- The race for a chunk from this moment on. -/
def race {σ : Type} (h : Handler) (computation : Backend.Computation σ) (now : Nat) : Race σ where
  startedAt := now
  endsAt := computation.takes.map fun d => now + d.nanos
  deadline := now + h.timeout.nanos
  computation := computation

end Handler

end EmbedServer.Call
